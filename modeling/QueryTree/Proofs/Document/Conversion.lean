import QueryTree.Proofs.Document.Stored
/-! The conversion of checked values. It succeeds exactly when the check finds no fault, and it reads at every
node the source that the check found there. -/

namespace QueryTree

open Json (Members)
open Check (Source subqueryKey checkNode memberCheckers sourceOf)

namespace Fault

def IsTold (e : Fault) : Prop :=
  ∀ path reason, e ≠ .malformed path reason

def nodePath? : Fault → Option String
  | missingFields path | missingSource path | missingSubquery path _ | invalidJoin path _ | invalidUnion path _
  | malformed path _ => some path
  | _ => none

def IsUnplaced (e : Fault) : Prop :=
  e.nodePath? = none

lemma IsUnplaced.isTold {e : Fault} (h : e.IsUnplaced) : e.IsTold := by
  rintro path reason rfl
  cases h

end Fault

def FailsOnly {ε α : Type} (p : ε → Prop) (x : Except ε α) : Prop :=
  ∀ e, x = .error e → p e

def Checked.FailsOnly {α : Type} (p : Fault → Prop) (c : Checked α) : Prop :=
  ∀ e, c.fault = some e → p e

section

variable {ε α β : Type} {p : ε → Prop}

lemma failsOnly_ok (a : α) : FailsOnly p (.ok a : Except ε α) :=
  nofun

lemma failsOnly_error {e : ε} (h : p e) : FailsOnly p (.error e : Except ε α) := by
  intro e' he
  cases he
  exact h

lemma failsOnly_ite {c : Prop} [Decidable c] {a : α} {e : ε} (h : p e) :
    FailsOnly p (if c then .ok a else .error e : Except ε α) := by
  split
  · exact failsOnly_ok a
  · exact failsOnly_error h

lemma FailsOnly.bind {x : Except ε α} {f : α → Except ε β} (hx : FailsOnly p x) (hf : ∀ a, FailsOnly p (f a)) :
    FailsOnly p (x >>= f) := by
  cases x with
  | ok a => exact hf a
  | error e => exact failsOnly_error (hx e rfl)

lemma failsOnly_mapError {ε' : Type} {f : ε' → ε} (h : ∀ e, p (f e)) (x : Except ε' α) : FailsOnly p (x.mapError f) := by
  cases x with
  | ok a => exact failsOnly_ok a
  | error e => exact failsOnly_error (h e)

end

namespace Checked

variable {α β : Type} {p : Fault → Prop}

lemma failsOnly_ok (a : α) : (ok a).FailsOnly p :=
  nofun

lemma failsOnly_failed {a : α} {e : Fault} (h : p e) : (failed a e).FailsOnly p := by
  intro e' he
  cases he
  exact h

lemma FailsOnly.map {c : Checked α} (h : c.FailsOnly p) (f : α → β) : (c.map f).FailsOnly p :=
  h

lemma FailsOnly.andThen {c : Checked α} {f : α → Checked α} (hc : c.FailsOnly p) (hf : ∀ a, (f a).FailsOnly p) :
    (c.andThen f).FailsOnly p := by
  intro e he
  unfold Checked.andThen at he
  split at he
  · exact hf _ e he
  · exact hc e he

lemma failsOnly_ofExcept {ε : Type} {a : α} {r : Except Fault ε} (h : QueryTree.FailsOnly p r) :
    (ofExcept a r).FailsOnly p := by
  cases r with
  | ok => exact failsOnly_ok a
  | error e => exact failsOnly_failed (h e rfl)

end Checked

namespace Check

open Fault (IsTold IsUnplaced)

/-! A fault in a field or in another entry of a block tells no place in the tree. -/

lemma checkKnown_unplaced (name : String) (attributes : Members) :
    FailsOnly IsUnplaced (checkKnown name attributes) := by
  unfold checkKnown
  split
  · exact failsOnly_error rfl
  · exact failsOnly_ok _

lemma checkType_unplaced (name : String) (attributes : Members) : FailsOnly IsUnplaced (checkType name attributes) := by
  unfold checkType
  split
  · exact failsOnly_error rfl
  · split
    · exact failsOnly_ok _
    · exact failsOnly_error rfl

lemma checkText_unplaced (name : String) (attributes : Members) (attr : String) :
    FailsOnly IsUnplaced (checkText name attributes attr) := by
  unfold checkText
  split
  · exact failsOnly_ite rfl
  · exact failsOnly_ok _

lemma checkAggregable_unplaced (name : String) (type : FieldType) (a : Aggregation) :
    FailsOnly IsUnplaced (checkAggregable name type a) := by
  cases type with
  | numeric => exact failsOnly_ok _
  | dimension => exact failsOnly_error rfl

lemma checkGroupBy_unplaced (name : String) (type : FieldType) (attributes : Members) :
    FailsOnly IsUnplaced (checkGroupBy name type attributes) := by
  unfold checkGroupBy
  split
  · exact failsOnly_ok _
  · split
    · exact failsOnly_error rfl
    · split
      · exact failsOnly_ok _
      · split
        · exact failsOnly_error rfl
        · exact failsOnly_ok _
        · exact checkAggregable_unplaced name type _

lemma checkOrderBy_unplaced (name : String) (attributes : Members) :
    FailsOnly IsUnplaced (checkOrderBy name attributes) := by
  unfold checkOrderBy
  split
  · exact failsOnly_ok _
  · exact failsOnly_ite rfl

lemma checkSelect_unplaced (name : String) (attributes : Members) :
    FailsOnly IsUnplaced (checkSelect name attributes) := by
  unfold checkSelect
  split
  · exact failsOnly_ok _
  · exact failsOnly_ite rfl

lemma checkAttributes_unplaced (name : String) (attributes : Members) :
    FailsOnly IsUnplaced (checkAttributes name attributes) := by
  apply (checkKnown_unplaced name attributes).bind
  intro _
  apply (checkType_unplaced name attributes).bind
  intro type
  apply (checkText_unplaced name attributes _).bind
  intro _
  apply (checkText_unplaced name attributes _).bind
  intro _
  apply (checkText_unplaced name attributes _).bind
  intro _
  apply (checkGroupBy_unplaced name type attributes).bind
  intro _
  apply (checkOrderBy_unplaced name attributes).bind
  intro _
  exact checkSelect_unplaced name attributes

lemma checkField_unplaced (name : String) (v : Json) : (checkField name v).FailsOnly IsUnplaced := by
  unfold checkField
  split
  · next attributes =>
    split
    · exact Checked.failsOnly_ok _
    · next e he => exact Checked.failsOnly_failed (checkAttributes_unplaced name attributes e he)
  · exact Checked.failsOnly_failed rfl

lemma checkFields_unplaced (fields : Members) : (checkFields fields).FailsOnly IsUnplaced := by
  induction fields with
  | nil => exact Checked.failsOnly_ok _
  | cons m fields ih =>
    obtain ⟨name, v⟩ := m
    simp only [checkFields]
    split
    · exact ih.map _
    · next e he => exact Checked.failsOnly_failed (checkField_unplaced name v e he)

lemma checkClause_unplaced (block : Members) (clause : String) : FailsOnly IsUnplaced (checkClause block clause) := by
  unfold checkClause
  split
  · exact failsOnly_ite rfl
  · exact failsOnly_ok _

lemma checkDistinct_unplaced (block : Members) : FailsOnly IsUnplaced (checkDistinct block) := by
  unfold checkDistinct
  split
  · exact failsOnly_ite rfl
  · exact failsOnly_ok _

lemma checkLimit_unplaced (block : Members) : FailsOnly IsUnplaced (checkLimit block) := by
  unfold checkLimit
  split
  · exact failsOnly_ite rfl
  · exact failsOnly_ok _

lemma checkEntries_unplaced (block : Members) : FailsOnly IsUnplaced (checkEntries block) := by
  apply (checkClause_unplaced block _).bind
  intro _
  apply (checkClause_unplaced block _).bind
  intro _
  apply (checkClause_unplaced block _).bind
  intro _
  apply (checkDistinct_unplaced block).bind
  intro _
  exact checkLimit_unplaced block

lemma exists_of_checkBlock_fault {block : Members} {path : String} {e : Fault}
    (h : (checkBlock block path).fault = some e) :
    block.get? "fields" = none ∧ e = .missingFields path ∨ e.IsUnplaced := by
  unfold checkBlock at h
  split at h
  · next hfields => exact .inl ⟨hfields, (Option.some.inj h).symm⟩
  · next fields _ =>
    refine .inr ((((checkFields_unplaced fields).map _).andThen fun block => ?_) e h)
    exact Checked.failsOnly_ofExcept (checkEntries_unplaced block)
  · cases h
    exact .inr rfl

lemma checkBlock_told (block : Members) (path : String) : (checkBlock block path).FailsOnly IsTold := by
  intro e he
  rcases exists_of_checkBlock_fault he with ⟨-, rfl⟩ | he
  · exact nofun
  · exact he.isTold

lemma sourceOf_told (block : Members) (path : String) (hasSubquery : Bool) :
    FailsOnly IsTold (sourceOf block path hasSubquery) := by
  unfold sourceOf
  split
  · exact failsOnly_mapError (fun _ => nofun) _
  · exact failsOnly_mapError (fun _ => nofun) _
  · split
    · exact failsOnly_ok _
    · exact failsOnly_ite nofun
  · exact failsOnly_error nofun
  · exact failsOnly_ite nofun

lemma checkChildren_told {checks : Entries Checker}
    (h : ∀ key check, checks.get? key = some check → ∀ path, (check path).FailsOnly IsTold)
    (path : String) (keys : List String) (node : Members) : (checkChildren checks path keys node).FailsOnly IsTold := by
  induction keys generalizing node with
  | nil => exact Checked.failsOnly_ok _
  | cons key keys ih =>
    unfold checkChildren
    split
    · exact Checked.failsOnly_failed nofun
    · next check hcheck =>
      exact ((h key check hcheck _).map _).andThen ih

lemma checkMembers_told (node : Members) {checks : Entries Checker}
    (h : ∀ key check, checks.get? key = some check → ∀ path, (check path).FailsOnly IsTold) (path : String) :
    (checkMembers node checks path).FailsOnly IsTold := by
  unfold checkMembers
  split
  · next block _ =>
    simp only
    split
    · next e he => exact Checked.failsOnly_failed (checkBlock_told block path e he)
    · split
      · next e he => exact Checked.failsOnly_failed (sourceOf_told _ path _ e he)
      · exact checkChildren_told h path _ _
  · exact Checked.failsOnly_failed nofun

lemma checkNode_told (v : Json) (path : String) : (checkNode v path).FailsOnly IsTold := by
  induction v using Json.memberInduction generalizing path with
  | other v hv =>
    cases v with
    | object => cases hv
    | _ => exact Checked.failsOnly_failed nofun
  | object node ih =>
    have hchecks : ∀ key check, Entries.get? (memberCheckers node) key = some check →
        ∀ path, (check path).FailsOnly IsTold := by
      intro key check hcheck path
      obtain ⟨v, hv, rfl⟩ := exists_of_get?_memberCheckers hcheck
      exact ih _ (Entries.mem_of_get? hv) path
    exact (checkMembers_told node hchecks path).map _

lemma checkFlat_told (block : Members) : (checkFlat block).FailsOnly IsTold := by
  apply (checkBlock_told block rootPath).andThen
  intro block
  split
  · exact Checked.failsOnly_ok _
  · exact Checked.failsOnly_failed nofun
  · next e he => exact Checked.failsOnly_failed (sourceOf_told block rootPath false e he)

lemma check_told (v : Json) : (check v).FailsOnly IsTold := by
  unfold check
  split
  · exact checkNode_told v _
  · split
    · exact (checkFlat_told _).map _
    · exact Checked.failsOnly_failed nofun

end Check

namespace Document

/-- The document has, at every node, the source that the check found at that place, and its children come from
the values there, which passed the check. -/
inductive Follows : String → Json → Document → Prop
  | node {path : String} {node block : Members} {d : Document} (checked : (checkNode (.object node) path).fault = none)
      (select : node.get? "select" = some (.object block))
      (source : sourceOf (Check.checkBlock block path).value path (node.contains subqueryKey) = .ok d.source)
      (present : ∀ key ∈ d.source.childKeys, key ∈ node.keys)
      (children : ∀ key v c, (key, c) ∈ d.source.childKeys.zip d.children → node.get? key = some v →
        Follows (path ++ "." ++ key) v c) : Follows path (.object node) d

inductive FollowsCheck : Json → Document → Prop
  | wrapped {node : Members} {d : Document} (select : "select" ∈ node.keys)
      (follows : Follows "select" (.object node) d) : FollowsCheck (.object node) d
  | flat {block : Members} {d : Document} (select : "select" ∉ block.keys)
      (source : sourceOf (Check.checkBlock block Check.rootPath).value Check.rootPath false = .ok .table)
      (table : d.source = .table) : FollowsCheck (.object block) d

lemma Stores.follows {v : Json} {d : Document} (h : Stores v d) {path : String}
    (hv : (checkNode v path).fault = none) : Follows path v d := by
  induction h generalizing path with
  | @node node block d hselect _ hsource hpresent _ ih =>
    have hchecked := hv
    rw [checkNode, Checked.fault_map] at hv
    obtain ⟨_, source, hselect', hb, hs, hc⟩ := Check.checkMembers_iff.1 hv
    cases hselect.symm.trans hselect'
    obtain rfl := hsource.source_eq (Check.sourceOf_eq_ok_iff.1 hs).1
    refine .node hchecked hselect ?_ hpresent ?_
    · rw [Check.sourceOf_checkBlock hb, hs]
    · intro key v c hm hv
      obtain ⟨check, hcheck, hfault⟩ := hc key (List.of_mem_zip hm).1
      rw [Check.get?_memberCheckers, hv] at hcheck
      cases hcheck
      exact ih key v c hm hv hfault

lemma StoresDocument.followsCheck {v : Json} {d : Document} (h : StoresDocument v d)
    (hv : (Check.check v).fault = none) : FollowsCheck v d := by
  cases h with
  | wrapped hm hs =>
    rw [Check.check_of_mem hm] at hv
    exact .wrapped hm (hs.follows hv)
  | @flat block t hm ht =>
    rw [Check.check_of_not_mem hm, Checked.fault_map] at hv
    obtain ⟨hblock, hu, hj, name, hname, hne⟩ := Check.checkFlat_iff.1 hv
    refine .flat hm ?_ rfl
    rw [Check.sourceOf_checkBlock (Check.checkBlock_iff.2 hblock), Check.sourceOf_eq_ok_iff]
    exact ⟨.table (Entries.get?_eq_none_iff.2 hu) (Entries.get?_eq_none_iff.2 hj) hname hne, nofun⟩

/-- A value is converted exactly when it passes the check, and otherwise with the fault that the check found,
which always tells what is wrong. What it is converted to follows the check node by node. -/
theorem ofJson_follows_check {v : Json} (hu : v.hasUniqueNames) :
    ((Check.check v).fault = none ↔ ∃ d, ofJson v = .ok d) ∧
      (∀ e, (Check.check v).fault = some e ↔ ofJson v = .error e) ∧
      (∀ path reason, ofJson v ≠ .error (.malformed path reason)) ∧
      ∀ d, ofJson v = .ok d → FollowsCheck v d := by
  have hok : (Check.check v).fault = none ↔ ∃ d, ofJson v = .ok d := by
    constructor
    · exact exists_ofJson hu
    · rintro ⟨d, hd⟩
      exact ((ofJson_eq_ok_iff hu).1 hd).1
  have herror : ∀ e, (Check.check v).fault = some e ↔ ofJson v = .error e := by
    intro e
    cases hv : (Check.check v).fault with
    | none =>
      obtain ⟨d, hd⟩ := hok.1 hv
      simp [hd]
    | some e' => simp [ofJson, hv]
  refine ⟨hok, herror, ?_, ?_⟩
  · intro path reason h
    exact Check.check_told v _ ((herror _).2 h) path reason rfl
  · intro d hd
    obtain ⟨hv, hs⟩ := (ofJson_eq_ok_iff hu).1 hd
    exact hs.followsCheck hv

def pairJoin (condition : Json) : Json :=
  let table (name : String) : Json :=
    .object [("select", .object [("fields", .object [("x", .object [("type", .string "dim")])]), ("table", .string name)])]
  .object
    [("sq1", table "t"), ("sq2", table "u"),
      ("select", .object
        [("fields", .object [("sq2.x", .object [("type", .string "dim")])]),
          ("join", .object [("join_type", .array [.string "cross"]), ("on", .array [condition])])])]

theorem ofJson_follows_check_pairJoin :
    ((pairJoin .null).hasUniqueNames = true ∧
      ofJson (pairJoin .null) = .error (.invalidJoin "select" "invalid join condition null")) ∧
    (pairJoin (.string "0")).hasUniqueNames = true ∧
      ∃ d, ofJson (pairJoin (.string "0")) = .ok d ∧ FollowsCheck (pairJoin (.string "0")) d := by
  constructor
  · have hu : (pairJoin .null).hasUniqueNames = true := by decide +kernel
    have hv : (Check.check (pairJoin .null)).fault = some (.invalidJoin "select" "invalid join condition null") := by
      decide +kernel
    exact ⟨hu, ((ofJson_follows_check hu).2.1 _).1 hv⟩
  · have hu : (pairJoin (.string "0")).hasUniqueNames = true := by decide +kernel
    have hv : (Check.check (pairJoin (.string "0"))).fault = none := by decide +kernel
    obtain ⟨d, hd⟩ := (ofJson_follows_check hu).1.1 hv
    exact ⟨hu, d, hd, (ofJson_follows_check hu).2.2.2 d hd⟩

end Document

end QueryTree
