import QueryTree.Proofs.Document.Walk
import QueryTree.Proofs.Json.UniqueNames
/-! What the check changes in a value: texts under `as` in the fields of the nodes it comes to, and nothing else.
Values are compared place by place, a place being the names of the members that lead to it. -/

namespace QueryTree

open Json (Members)

namespace Json

def at? : Json → List String → Option Json
  | v, [] => some v
  | v, name :: names => (v.member? name).bind (at? · names)

def surface : Json → List String ⊕ Json
  | .object ms => .inl (Entries.keys ms)
  | v => .inr v

def SameAt (v w : Json) (place : List String) : Prop :=
  (v.at? place).map surface = (w.at? place).map surface

@[simp] lemma at?_object_cons (ms : Members) (name : String) (names : List String) :
    (Json.object ms).at? (name :: names) = (ms.get? name).bind (at? · names) := rfl

lemma at?_cons_of_members? {v : Json} (h : v.members? = none) (name : String) (names : List String) :
    v.at? (name :: names) = none := by
  rw [at?, member?, h]
  rfl

lemma surface_of_members? {v : Json} (h : v.members? = none) : v.surface = .inr v := by
  cases v with
  | object => cases h
  | null | bool | number | string | array => rfl

lemma eq_of_sameAt {v w : Json} (hv : v.hasUniqueNames) (h : ∀ place, SameAt v w place) : v = w := by
  induction v using Json.memberInduction generalizing w with
  | other v hother =>
    have hroot : v.surface = w.surface := Option.some.inj (h [])
    rw [surface_of_members? hother] at hroot
    cases w with
    | object => cases hroot
    | null | bool | number | string | array => exact Sum.inr.inj hroot
  | object ms ih =>
    have hroot : (Json.object ms).surface = w.surface := Option.some.inj (h [])
    cases w with
    | object ws =>
      have hkeys : ms.keys = Entries.keys ws := Sum.inl.inj hroot
      refine congrArg Json.object (Entries.eq_of_get? (hasUniqueNames_object.1 hv).1 hkeys fun name => ?_)
      cases hm : ms.get? name with
      | none =>
        rw [Entries.get?_eq_none_iff, hkeys] at hm
        exact (Entries.get?_eq_none_iff.2 hm).symm
      | some v =>
        have hmem : name ∈ Entries.keys ws := hkeys ▸ Entries.mem_keys_of_get? hm
        obtain ⟨w, hw⟩ := Entries.exists_get?_of_mem_keys hmem
        have hsame : ∀ place, SameAt v w place := by
          intro place
          simpa only [SameAt, at?_object_cons, hm, hw, Option.bind_some] using h (name :: place)
        rw [hw]
        exact congrArg some (ih (name, v) (Entries.mem_of_get? hm) (hasUniqueNames_of_get? hv hm) hsame)
    | null | bool | number | string | array => cases hroot

end Json

namespace Check

open Json (SameAt)
open Grammar

/-- `w` is `v` with aliases normalized: at all places in `must`, at no places but those in `may`. -/
structure AliasesNormalized (must may : List String → Prop) (v w : Json) : Prop where
  done : ∀ place, must place → w.at? place = (v.at? place).map normalizeAliasValue
  only : ∀ place, SameAt v w place ∨ may place ∧ w.at? place = (v.at? place).map normalizeAliasValue

namespace AliasesNormalized

variable {must may must' may' : List String → Prop} {v w : Json}

lemma mono (h : AliasesNormalized must may v w) (hmust : ∀ place, must' place → must place)
    (hmay : ∀ place, may place → may' place) : AliasesNormalized must' may' v w :=
  ⟨fun place hp => h.done place (hmust place hp), fun place => (h.only place).imp_right (And.imp_left (hmay place))⟩

lemma unchanged (v : Json) (h : ∀ place, ¬ must place) : AliasesNormalized must may v v :=
  ⟨fun place hp => absurd hp (h place), fun _ => .inl rfl⟩

lemma object {ms ws : Members} (hkeys : ws.keys = ms.keys) (hroot : ¬ must [])
    (hmembers : ∀ name v, ms.get? name = some v → ∃ w, ws.get? name = some w ∧
      AliasesNormalized (fun place => must (name :: place)) (fun place => may (name :: place)) v w) :
    AliasesNormalized must may (.object ms) (.object ws) := by
  have hnone : ∀ name, ms.get? name = none → ws.get? name = none := by
    intro name hname
    rw [Entries.get?_eq_none_iff] at hname ⊢
    rwa [hkeys]
  constructor
  · intro place hplace
    cases place with
    | nil => exact absurd hplace hroot
    | cons name place =>
      rw [Json.at?_object_cons, Json.at?_object_cons]
      cases hv : ms.get? name with
      | none => rw [hnone name hv]; rfl
      | some v =>
        obtain ⟨w, hw, h⟩ := hmembers name v hv
        rw [hw]
        exact h.done place hplace
  · intro place
    cases place with
    | nil => exact .inl (congrArg (fun keys => some (Sum.inl keys)) hkeys.symm)
    | cons name place =>
      rw [SameAt, Json.at?_object_cons, Json.at?_object_cons]
      cases hv : ms.get? name with
      | none => rw [hnone name hv]; exact .inl rfl
      | some v =>
        obtain ⟨w, hw, h⟩ := hmembers name v hv
        rw [hw]
        exact h.only place

end AliasesNormalized

lemma aliasesNormalized_value (v : Json) :
    AliasesNormalized (· = []) (· = []) v (normalizeAliasValue v) := by
  constructor
  · rintro _ rfl
    rfl
  · intro place
    cases place with
    | nil => exact .inr ⟨rfl, rfl⟩
    | cons name place =>
      cases v with
      | string s =>
        rw [SameAt, Json.at?_cons_of_members? rfl, normalizeAliasValue, Json.at?_cons_of_members? rfl]
        exact .inl rfl
      | _ => exact .inl rfl

lemma aliasesNormalized_checkField (name : String) (v : Json) :
    AliasesNormalized (fun place => (checkField name v).fault = none ∧ place = ["as"]) (· = ["as"]) v
      (checkField name v).value := by
  cases v with
  | object attributes =>
    cases h : checkAttributes name attributes with
    | error e =>
      simp only [checkField, h]
      exact .unchanged _ fun _ hp => Option.some_ne_none _ hp.1
    | ok =>
      simp only [checkField, h, Checked.value_ok, Checked.fault_ok, true_and]
      refine .object (Entries.keys_modify ..) (by simp) fun attr v hv => ?_
      rw [normalizeAlias, Entries.get?_modify, hv]
      by_cases hattr : "as" = attr
      · subst hattr
        exact ⟨_, if_pos rfl, (aliasesNormalized_value v).mono (by simp) (by simp)⟩
      · exact ⟨v, if_neg hattr, .unchanged v fun _ hp => hattr (List.cons.inj hp).1.symm⟩
  | _ => exact .unchanged _ fun _ hp => Option.some_ne_none _ hp.1

lemma keys_value_checkFields (fields : Members) : (checkFields fields).value.keys = fields.keys := by
  induction fields with
  | nil => rfl
  | cons m fields ih =>
    obtain ⟨name, v⟩ := m
    cases h : (checkField name v).fault with
    | none => simpa [checkFields, h] using ih
    | some e => simp [checkFields, h, Checked.failed]

lemma get?_value_checkFields {fields : Members} {name : String} {v : Json} (h : fields.get? name = some v) :
    (checkFields fields).value.get? name = some v ∧ (checkFields fields).fault ≠ none ∨
      (checkFields fields).value.get? name = some (checkField name v).value ∧
        ((checkFields fields).fault = none → (checkField name v).fault = none) := by
  induction fields with
  | nil => cases h
  | cons m fields ih =>
    obtain ⟨k, u⟩ := m
    rw [Entries.get?_cons] at h
    cases hfault : (checkField k u).fault with
    | none =>
      simp only [checkFields, hfault, Checked.value_map, Checked.fault_map, Entries.get?_cons]
      split at h
      · next hk =>
        subst hk
        cases h
        exact .inr ⟨if_pos rfl, fun _ => hfault⟩
      · next hk => simpa [hk] using ih h
    | some e =>
      simp only [checkFields, hfault, Checked.failed, Entries.get?_cons]
      split at h
      · next hk =>
        subst hk
        cases h
        exact .inr ⟨if_pos rfl, fun hpass => absurd hpass (Option.some_ne_none e)⟩
      · next hk => exact .inl ⟨by rw [if_neg hk, h], Option.some_ne_none e⟩

lemma aliasesNormalized_checkFields (fields : Members) :
    AliasesNormalized (fun place => (checkFields fields).fault = none ∧ ∃ field, place = [field, "as"])
      (fun place => ∃ field, place = [field, "as"]) (.object fields) (.object (checkFields fields).value) := by
  refine .object (keys_value_checkFields fields) (by simp) fun name v hv => ?_
  rcases get?_value_checkFields hv with ⟨hkept, hfault⟩ | ⟨hvalue, hfault⟩
  · exact ⟨v, hkept, .unchanged v fun _ hp => hfault hp.1⟩
  · refine ⟨_, hvalue, (aliasesNormalized_checkField name v).mono ?_ ?_⟩
    · rintro place ⟨hnone, field, hplace⟩
      exact ⟨hfault hnone, (List.cons.inj hplace).2⟩
    · rintro _ rfl
      exact ⟨name, rfl⟩

lemma fault_checkFields_of_checkBlock {block fields : Members} {path : String}
    (h : block.get? "fields" = some (.object fields)) (hb : (checkBlock block path).fault = none) :
    (checkFields fields).fault = none := by
  obtain ⟨_, hfields, hpass, -⟩ := checkBlock_value hb
  cases h.symm.trans hfields
  exact hpass

lemma aliasesNormalized_checkBlock (block : Members) (path : String) :
    AliasesNormalized (fun place => (checkBlock block path).fault = none ∧ ∃ field, place = ["fields", field, "as"])
      (fun place => ∃ field, place = ["fields", field, "as"]) (.object block)
      (.object (checkBlock block path).value) := by
  cases h : block.get? "fields" with
  | none =>
    simp only [checkBlock, h]
    exact .unchanged _ fun _ hp => Option.some_ne_none _ hp.1
  | some v =>
    cases v with
    | object fields =>
      have hkeys := keys_value_checkBlock block path
      rw [value_checkBlock h] at hkeys ⊢
      refine .object hkeys (by simp) fun name v hv => ?_
      rw [Entries.get?_insert]
      by_cases hname : "fields" = name
      · subst hname
        cases h.symm.trans hv
        refine ⟨_, if_pos rfl, (aliasesNormalized_checkFields fields).mono ?_ ?_⟩
        · rintro place ⟨hnone, field, hplace⟩
          exact ⟨fault_checkFields_of_checkBlock h hnone, field, (List.cons.inj hplace).2⟩
        · rintro _ ⟨field, rfl⟩
          exact ⟨field, rfl⟩
      · refine ⟨v, by rw [if_neg hname, hv], .unchanged v ?_⟩
        rintro place ⟨-, field, hplace⟩
        exact hname (List.cons.inj hplace).1.symm
    | _ =>
      simp only [checkBlock, h]
      exact .unchanged _ fun _ hp => Option.some_ne_none _ hp.1

def NodeAlias (nodes : List String → Prop) (place : List String) : Prop :=
  ∃ keys field, nodes keys ∧ place = keys ++ ["select", "fields", field, "as"]

lemma not_nodeAlias_nil (nodes : List String → Prop) : ¬ NodeAlias nodes [] := by
  rintro ⟨keys, field, -, hplace⟩
  simp at hplace

lemma exists_of_nodeAlias {node : Members} {name : String} {place : List String}
    (h : NodeAlias (RefersTo (.object node)) (name :: place)) :
    (name = "select" ∧ ∃ field, place = ["fields", field, "as"]) ∨
      ∃ block source v, node.get? "select" = some (.object block) ∧ ReadsFrom block source ∧
        name ∈ source.childKeys ∧ node.get? name = some v ∧ NodeAlias (RefersTo v) place := by
  obtain ⟨keys, field, hkeys, hplace⟩ := h
  cases hkeys with
  | root =>
    obtain ⟨rfl, rfl⟩ := List.cons.inj hplace
    exact .inl ⟨rfl, field, rfl⟩
  | @child _ block source key v keys hselect hreads hmem hv hrest =>
    obtain ⟨rfl, rfl⟩ := List.cons.inj hplace
    exact .inr ⟨block, source, v, hselect, hreads, hmem, hv, keys, field, hrest, rfl⟩

def NormalizesNode (v : Json) : Prop :=
  ∀ path, AliasesNormalized (fun place => (checkNode v path).fault = none ∧ NodeAlias (RefersTo v) place)
    (NodeAlias (Visited v)) v (checkNode v path).value

section

variable {node block : Members} {path : String}

lemma aliasesNormalized_select (hselect : node.get? "select" = some (.object block)) :
    AliasesNormalized
      (fun place => (checkMembers node (memberCheckers node) path).fault = none ∧
        NodeAlias (RefersTo (.object node)) ("select" :: place))
      (fun place => NodeAlias (Visited (.object node)) ("select" :: place)) (.object block)
      (.object (checkBlock block path).value) := by
  refine (aliasesNormalized_checkBlock block path).mono ?_ ?_
  · rintro place ⟨hpass, halias⟩
    obtain ⟨block', source, hselect', hb, hs, -⟩ := checkMembers_iff.1 hpass
    cases hselect.symm.trans hselect'
    rcases exists_of_nodeAlias halias with ⟨-, hplace⟩ | ⟨_, source', _, -, -, hmem, -⟩
    · exact ⟨hb, hplace⟩
    · exact absurd hmem source'.select_not_mem_childKeys
  · rintro _ ⟨field, rfl⟩
    exact ⟨[], field, .root _, rfl⟩

lemma aliasesNormalized_child {before : List String} {key : String} {v : Json} (htakes : Takes node before key)
    (hv : node.get? key = some v) (h : NormalizesNode v) :
    AliasesNormalized
      (fun place => (checkMembers node (memberCheckers node) path).fault = none ∧
        NodeAlias (RefersTo (.object node)) (key :: place))
      (fun place => NodeAlias (Visited (.object node)) (key :: place)) v (checkNode v (path ++ "." ++ key)).value := by
  refine (h _).mono ?_ ?_
  · rintro place ⟨hpass, halias⟩
    rcases exists_of_nodeAlias halias with ⟨hselected, -⟩ | ⟨block, source, w, hselect, hreads, hmem, hw, hrest⟩
    · exact absurd hselected htakes.ne_select
    · cases hv.symm.trans hw
      exact ⟨fault_child_of_checkMembers hpass hselect hreads hmem hv, hrest⟩
  · rintro _ ⟨keys, field, hkeys, rfl⟩
    exact ⟨key :: keys, field, .child htakes hv hkeys, rfl⟩

end

lemma normalizesNode_object {node : Members} (hmembers : ∀ key v, node.get? key = some v → NormalizesNode v) :
    NormalizesNode (.object node) := by
  intro path
  rw [checkNode, Checked.value_map, Checked.fault_map]
  by_cases hselect : ∃ block, node.get? "select" = some (.object block)
  · obtain ⟨block, hselect⟩ := hselect
    refine .object (keys_value_checkMembers node path) (fun h => not_nodeAlias_nil _ h.2) fun name v hv => ?_
    rcases get?_value_checkMembers hselect name with ⟨hkept, hnot⟩ | ⟨before, v', htakes, hv', hvalue⟩
    · rw [hkept, Entries.get?_insert]
      by_cases hname : "select" = name
      · subst hname
        cases hselect.symm.trans hv
        exact ⟨_, if_pos rfl, aliasesNormalized_select hselect⟩
      · -- a member that the walk did not come to: if the node passes, its source does not refer to it
        refine ⟨v, by rw [if_neg hname, hv], .unchanged v ?_⟩
        rintro place ⟨hpass, halias⟩
        rcases exists_of_nodeAlias halias with ⟨hselected, -⟩ | ⟨block', source, _, hselect', hreads, hmem, -⟩
        · exact hname hselected.symm
        · cases hselect.symm.trans hselect'
          exact hnot hpass source hreads hmem
    · cases hv.symm.trans hv'
      exact ⟨_, hvalue, aliasesNormalized_child htakes hv (hmembers name v hv)⟩
  · rw [checkMembers_of_not_select (not_exists.1 hselect)]
    exact .unchanged _ fun _ hp => Option.some_ne_none _ hp.1

lemma normalizesNode (v : Json) : NormalizesNode v := by
  induction v using Json.memberInduction with
  | other v hv =>
    intro path
    cases v with
    | object => cases hv
    | _ => exact .unchanged _ fun _ hp => Option.some_ne_none _ hp.1
  | object node ih => exact normalizesNode_object fun key v hv => ih (key, v) (Entries.mem_of_get? hv)

/-- The places of the aliases in a document: in its block, or in the nodes to which the chains of keys lead. -/
inductive AliasPlace (nodes : List String → Prop) (v : Json) : List String → Prop
  | wrapped {place : List String} (wrapped : isWrapped v = true) (inNode : NodeAlias nodes place) :
      AliasPlace nodes v place
  | flat {field : String} (flat : isWrapped v = false) : AliasPlace nodes v ["fields", field, "as"]

lemma aliasesNormalized_check (v : Json) :
    AliasesNormalized (fun place => (check v).fault = none ∧ AliasPlace (RefersTo v) v place)
      (AliasPlace (Visited v) v) v (check v).value := by
  cases v with
  | object members =>
    by_cases hm : "select" ∈ Entries.keys members
    · have hw : isWrapped (.object members) = true := isWrapped_iff.2 ⟨members, rfl, hm⟩
      rw [check_of_mem hm]
      refine (normalizesNode (.object members) "select").mono ?_ fun place hp => .wrapped hw hp
      rintro place ⟨hpass, hplace⟩
      cases hplace with
      | wrapped _ halias => exact ⟨hpass, halias⟩
      | flat hflat => simp [hw] at hflat
    · have hw : isWrapped (.object members) = false := by
        rw [← Bool.not_eq_true, isWrapped_iff]
        rintro ⟨_, hb, hm'⟩
        cases hb
        exact hm hm'
      rw [check_of_not_mem hm, Checked.value_map, Checked.fault_map, value_checkFlat]
      refine (aliasesNormalized_checkBlock members rootPath).mono ?_ ?_
      · rintro place ⟨hpass, hplace⟩
        cases hplace with
        | wrapped hwrapped => simp [hw] at hwrapped
        | @flat field => exact ⟨(Checked.fault_andThen_eq_none_iff.1 hpass).1, field, rfl⟩
      · rintro _ ⟨field, rfl⟩
        exact .flat hw
  | _ => exact .unchanged _ fun _ hp => Option.some_ne_none _ hp.1

/-- A check changes nothing in a value but aliases in nodes that it came to. If it passes, they are the aliases of the
whole query, and no others. -/
theorem check_normalizes_aliases (v : Json) :
    AliasesNormalized (fun _ => False) (AliasPlace (Visited v) v) v (check v).value ∧
      ((check v).fault = none →
        AliasesNormalized (AliasPlace (RefersTo v) v) (AliasPlace (RefersTo v) v) v (check v).value) := by
  have h := aliasesNormalized_check v
  refine ⟨h.mono (fun _ => False.elim) (fun _ hp => hp), fun hpass => h.mono (fun _ hp => ⟨hpass, hp⟩) ?_⟩
  rintro place (⟨hw, keys, field, hkeys, rfl⟩ | hflat)
  · exact .wrapped hw ⟨keys, field, hkeys.refersTo, rfl⟩
  · exact .flat hflat

def besideUnused : Json :=
  let block (source : Members) : Json :=
    .object (("fields", .object [("x", .object [("type", .string "dim"), ("as", .string " a  b ")])]) :: source)
  let table : Json := .object [("select", block [("table", .string "t")])]
  .object [("sq", table), ("sq1", table), ("select", block [])]

theorem check_normalizes_aliases_besideUnused :
    (check besideUnused).fault = none ∧
      AliasesNormalized (AliasPlace (RefersTo besideUnused) besideUnused)
        (AliasPlace (RefersTo besideUnused) besideUnused) besideUnused (check besideUnused).value ∧
      (check besideUnused).value.at? ["sq", "select", "fields", "x", "as"] = some (.string "a_b") ∧
      (check besideUnused).value.at? ["sq1", "select", "fields", "x", "as"] = some (.string " a  b ") := by
  have hpass : (check besideUnused).fault = none := by decide +kernel
  exact ⟨hpass, (check_normalizes_aliases besideUnused).2 hpass, by decide +kernel, by decide +kernel⟩

theorem value_check_eq_self {v : Json} (hu : v.hasUniqueNames)
    (h : ∀ place w, AliasPlace (Visited v) v place → v.at? place = some w → normalizeAliasValue w = w) :
    (check v).value = v := by
  refine (Json.eq_of_sameAt hu fun place => ?_).symm
  rcases (aliasesNormalized_check v).only place with hsame | ⟨hplace, hvalue⟩
  · exact hsame
  · have hkept : (v.at? place).map normalizeAliasValue = v.at? place := by
      cases hat : v.at? place with
      | none => rfl
      | some w => rw [Option.map_some, h place w hplace hat]
    rw [SameAt, hvalue, hkept]

end Check

end QueryTree
