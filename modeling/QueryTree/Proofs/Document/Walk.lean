import QueryTree.Proofs.Document.Acceptance
import QueryTree.Proofs.Document.Tree
/-! The walk over the nodes of a query. It comes to a node only after all that stands before it was found in order:
the block and the source of every node on the way, and the queries before the one that is taken. What the walk does at
one node is said here once, whether it ends there or not. -/

namespace QueryTree

open Json (Members)
open Grammar

lemma Grammar.ReadsFrom.unique {block : Members} {source source' : Check.Source} (h : ReadsFrom block source)
    (h' : ReadsFrom block source') : source = source' := by
  have hs : Check.sourceOf block "" true = .ok source := Check.sourceOf_eq_ok_iff.2 ⟨h, fun _ => rfl⟩
  exact Except.ok.inj (hs.symm.trans (Check.sourceOf_eq_ok_iff.2 ⟨h', fun _ => rfl⟩))

namespace Check

lemma value_checkBlock {block fields : Members} (h : block.get? "fields" = some (.object fields)) (path : String) :
    (checkBlock block path).value = block.insert "fields" (.object (checkFields fields).value) := by
  cases hf : (checkFields fields).fault <;> simp [checkBlock, h, Checked.andThen, hf]

lemma keys_value_checkBlock (block : Members) (path : String) : (checkBlock block path).value.keys = block.keys := by
  cases h : block.get? "fields" with
  | none => simp only [checkBlock, h, Checked.failed]
  | some v =>
    cases v with
    | object fields =>
      rw [value_checkBlock h]
      exact Entries.keys_insert_of_mem (Entries.mem_keys_of_get? h) _
    | _ => simp only [checkBlock, h, Checked.failed]

structure SelectsFrom (node : Members) (source : Source) : Prop where
  block : ∃ block, node.get? "select" = some (.object block) ∧ IsBlock block ∧ ReadsFrom block source
  subquery : source = .subquery → subqueryKey ∈ node.keys

def HoldsNodes (node : Members) (keys : List String) : Prop :=
  ∀ key ∈ keys, ∃ v, node.get? key = some v ∧ IsNode v

structure Takes (node : Members) (before : List String) (key : String) : Prop where
  selects : ∃ source after, SelectsFrom node source ∧ source.childKeys = before ++ key :: after
  before : HoldsNodes node before

/-- The chains of keys by which the walk comes to a node. -/
inductive Visited : Json → List String → Prop
  | root (v : Json) : Visited v []
  | child {node : Members} {before : List String} {key : String} {v : Json} {keys : List String}
      (takes : Takes node before key) (value : node.get? key = some v) (rest : Visited v keys) :
      Visited (.object node) (key :: keys)

/-- The chains of keys that lead from source to source. -/
inductive RefersTo : Json → List String → Prop
  | root (v : Json) : RefersTo v []
  | child {node block : Members} {source : Source} {key : String} {v : Json} {keys : List String}
      (select : node.get? "select" = some (.object block)) (reads : ReadsFrom block source)
      (member : key ∈ source.childKeys) (value : node.get? key = some v) (rest : RefersTo v keys) :
      RefersTo (.object node) (key :: keys)

lemma Takes.exists_source {node : Members} {before : List String} {key : String} (h : Takes node before key) :
    ∃ block source, node.get? "select" = some (.object block) ∧ ReadsFrom block source ∧ key ∈ source.childKeys := by
  obtain ⟨source, after, ⟨⟨block, hselect, -, hreads⟩, -⟩, hkeys⟩ := h.selects
  exact ⟨block, source, hselect, hreads, by simp [hkeys]⟩

lemma Takes.ne_select {node : Members} {before : List String} {key : String} (h : Takes node before key) :
    key ≠ "select" := by
  obtain ⟨_, source, -, -, hk⟩ := h.exists_source
  rintro rfl
  exact source.select_not_mem_childKeys hk

lemma Visited.refersTo {v : Json} {keys : List String} (h : Visited v keys) : RefersTo v keys := by
  induction h with
  | root v => exact .root v
  | child takes value _ ih =>
    obtain ⟨_, _, hselect, hreads, hk⟩ := takes.exists_source
    exact .child hselect hreads hk value ih

section

variable {checks : Entries Checker} {path : String} {keys : List String} {node : Members}

def ChildrenPass (checks : Entries Checker) (path : String) (keys : List String) : Prop :=
  ∀ key ∈ keys, ∃ check, checks.get? key = some check ∧ (check (path ++ "." ++ key)).fault = none

lemma childrenPass_nil : ChildrenPass checks path [] :=
  List.forall_mem_nil _

lemma checkChildren_cons_of_fault {key : String} {check : Checker} {e : Fault} (hcheck : checks.get? key = some check)
    (he : (check (path ++ "." ++ key)).fault = some e) :
    checkChildren checks path (key :: keys) node =
      .failed (node.insert key (check (path ++ "." ++ key)).value) e := by
  simp only [checkChildren, hcheck, Checked.andThen, Checked.map, he, Checked.failed]

lemma checkChildren_cons_of_pass {key : String} {check : Checker} (hcheck : checks.get? key = some check)
    (hpass : (check (path ++ "." ++ key)).fault = none) :
    checkChildren checks path (key :: keys) node =
      checkChildren checks path keys (node.insert key (check (path ++ "." ++ key)).value) := by
  simp only [checkChildren, hcheck, Checked.andThen, Checked.map, hpass]

lemma checkChildren_cons_of_none {key : String} (hcheck : checks.get? key = none) :
    checkChildren checks path (key :: keys) node = .failed node (.missingSubquery path key) := by
  simp only [checkChildren, hcheck]

lemma exists_of_checkChildren_fault {e : Fault} (h : (checkChildren checks path keys node).fault = some e) :
    ∃ before key after, keys = before ++ key :: after ∧ ChildrenPass checks path before ∧
      (checks.get? key = none ∧ e = .missingSubquery path key ∨
        ∃ check, checks.get? key = some check ∧ (check (path ++ "." ++ key)).fault = some e) := by
  induction keys generalizing node with
  | nil => cases h
  | cons key keys ih =>
    cases hcheck : checks.get? key with
    | none =>
      rw [checkChildren_cons_of_none hcheck] at h
      exact ⟨[], key, keys, rfl, childrenPass_nil, .inl ⟨hcheck, (Option.some.inj h).symm⟩⟩
    | some check =>
      cases hfault : (check (path ++ "." ++ key)).fault with
      | some e' =>
        rw [checkChildren_cons_of_fault hcheck hfault] at h
        exact ⟨[], key, keys, rfl, childrenPass_nil, .inr ⟨check, hcheck, hfault.trans h⟩⟩
      | none =>
        rw [checkChildren_cons_of_pass hcheck hfault] at h
        obtain ⟨before, k, after, rfl, hbefore, hk⟩ := ih h
        exact ⟨key :: before, k, after, rfl, List.forall_mem_cons.2 ⟨⟨check, hcheck, hfault⟩, hbefore⟩, hk⟩

lemma get?_value_checkChildren (k : String) :
    (checkChildren checks path keys node).value.get? k = node.get? k ∧
        ((checkChildren checks path keys node).fault = none → k ∉ keys) ∨
      ∃ before after check, keys = before ++ k :: after ∧ ChildrenPass checks path before ∧ checks.get? k = some check ∧
        (checkChildren checks path keys node).value.get? k = some (check (path ++ "." ++ k)).value := by
  induction keys generalizing node with
  | nil => exact .inl ⟨rfl, fun _ => List.not_mem_nil⟩
  | cons key keys ih =>
    cases hcheck : checks.get? key with
    | none =>
      rw [checkChildren_cons_of_none hcheck]
      exact .inl ⟨rfl, nofun⟩
    | some check =>
      have hinsert : Entries.get? (node.insert key (check (path ++ "." ++ key)).value) k =
          if key = k then some (check (path ++ "." ++ key)).value else node.get? k := Entries.get?_insert ..
      cases hfault : (check (path ++ "." ++ key)).fault with
      | some e =>
        rw [checkChildren_cons_of_fault hcheck hfault]
        by_cases hk : key = k
        · subst hk
          exact .inr ⟨[], keys, check, rfl, childrenPass_nil, hcheck, hinsert.trans (if_pos rfl)⟩
        · exact .inl ⟨hinsert.trans (if_neg hk), nofun⟩
      | none =>
        rw [checkChildren_cons_of_pass hcheck hfault]
        rcases @ih (node.insert key (check (path ++ "." ++ key)).value) with
          ⟨hkept, hnot⟩ | ⟨before, after, check', rfl, hbefore, hk, hvalue⟩
        · -- what the rest of the walk leaves alone may still be the child checked just now
          rw [hkept, hinsert]
          by_cases hk : key = k
          · subst hk
            exact .inr ⟨[], keys, check, rfl, childrenPass_nil, hcheck, if_pos rfl⟩
          · exact .inl ⟨if_neg hk, fun hpass => List.not_mem_cons_of_ne_of_not_mem (Ne.symm hk) (hnot hpass)⟩
        · refine .inr ⟨key :: before, after, check', rfl, ?_, hk, hvalue⟩
          exact List.forall_mem_cons.2 ⟨⟨check, hcheck, hfault⟩, hbefore⟩

lemma keys_value_checkChildren (h : ∀ key check, checks.get? key = some check → key ∈ node.keys) :
    (checkChildren checks path keys node).value.keys = node.keys := by
  induction keys generalizing node with
  | nil => rfl
  | cons key keys ih =>
    cases hcheck : checks.get? key with
    | none => rw [checkChildren_cons_of_none hcheck]; rfl
    | some check =>
      have hinsert := Entries.keys_insert_of_mem (h key check hcheck) (check (path ++ "." ++ key)).value
      cases hfault : (check (path ++ "." ++ key)).fault with
      | some e =>
        rw [checkChildren_cons_of_fault hcheck hfault]
        exact hinsert
      | none =>
        rw [checkChildren_cons_of_pass hcheck hfault, ih (hinsert ▸ h), hinsert]

end

section

variable {node block : Members} {path : String}

lemma selectsFrom_of_sourceOf {source : Source} (hselect : node.get? "select" = some (.object block))
    (hb : (checkBlock block path).fault = none)
    (hs : sourceOf block path (node.contains subqueryKey) = .ok source) : SelectsFrom node source := by
  obtain ⟨hreads, hsq⟩ := sourceOf_eq_ok_iff.1 hs
  exact ⟨⟨block, hselect, checkBlock_iff.1 hb, hreads⟩, fun h => Entries.contains_iff.1 (hsq h)⟩

lemma holdsNodes_of_childrenPass {keys : List String} (h : ChildrenPass (memberCheckers node) path keys) :
    HoldsNodes node keys := by
  intro key hk
  obtain ⟨check, hcheck, hpass⟩ := h key hk
  obtain ⟨v, hv, rfl⟩ := exists_of_get?_memberCheckers hcheck
  exact ⟨v, hv, checkNode_iff.1 hpass⟩

lemma exists_of_checkMembers_fault {e : Fault} (h : (checkMembers node (memberCheckers node) path).fault = some e) :
    e = .notAnObject (path ++ ".select") ∨
      (∃ block, node.get? "select" = some (.object block) ∧ ((checkBlock block path).fault = some e ∨
        IsBlock block ∧ sourceOf block path (node.contains subqueryKey) = .error e)) ∨
      ∃ before key, Takes node before key ∧ (node.get? key = none ∧ e = .missingSubquery path key ∨
        ∃ v, node.get? key = some v ∧ (checkNode v (path ++ "." ++ key)).fault = some e) := by
  by_cases hselect : ∃ block, node.get? "select" = some (.object block)
  · obtain ⟨block, hselect⟩ := hselect
    rw [checkMembers_of_select hselect] at h
    cases hb : (checkBlock block path).fault with
    | some e' =>
      rw [hb] at h
      exact .inr (.inl ⟨block, hselect, .inl (hb.trans h)⟩)
    | none =>
      cases hs : sourceOf block path (node.contains subqueryKey) with
      | error e' =>
        rw [hb, hs] at h
        cases h
        exact .inr (.inl ⟨block, hselect, .inr ⟨checkBlock_iff.1 hb, hs⟩⟩)
      | ok source =>
        rw [hb, hs] at h
        obtain ⟨before, key, after, hkeys, hbefore, hkey⟩ := exists_of_checkChildren_fault h
        have htakes : Takes node before key :=
          ⟨⟨source, after, selectsFrom_of_sourceOf hselect hb hs, hkeys⟩, holdsNodes_of_childrenPass hbefore⟩
        refine .inr (.inr ⟨before, key, htakes, ?_⟩)
        rcases hkey with ⟨hnone, rfl⟩ | ⟨check, hcheck, hfault⟩
        · rw [get?_memberCheckers, Option.map_eq_none_iff] at hnone
          exact .inl ⟨hnone, rfl⟩
        · obtain ⟨v, hv, rfl⟩ := exists_of_get?_memberCheckers hcheck
          exact .inr ⟨v, hv, hfault⟩
  · rw [checkMembers_of_not_select (not_exists.1 hselect)] at h
    exact .inl (Option.some.inj h).symm

lemma fault_child_of_checkMembers {source : Source} {key : String} {v : Json}
    (h : (checkMembers node (memberCheckers node) path).fault = none)
    (hselect : node.get? "select" = some (.object block)) (hreads : ReadsFrom block source)
    (hk : key ∈ source.childKeys) (hv : node.get? key = some v) :
    (checkNode v (path ++ "." ++ key)).fault = none := by
  obtain ⟨block', source', hselect', -, hs, hchildren⟩ := checkMembers_iff.1 h
  cases hselect.symm.trans hselect'
  rw [hreads.unique (sourceOf_eq_ok_iff.1 hs).1] at hk
  obtain ⟨check, hcheck, hpass⟩ := hchildren key hk
  rw [get?_memberCheckers, hv] at hcheck
  cases hcheck
  exact hpass

lemma mem_keys_of_get?_memberCheckers {key : String} {check : Checker}
    (h : Entries.get? (memberCheckers node) key = some check) : key ∈ node.keys := by
  obtain ⟨v, hv, -⟩ := exists_of_get?_memberCheckers h
  exact Entries.mem_keys_of_get? hv

lemma keys_value_checkMembers (node : Members) (path : String) :
    (checkMembers node (memberCheckers node) path).value.keys = node.keys := by
  by_cases hselect : ∃ block, node.get? "select" = some (.object block)
  · obtain ⟨block, hselect⟩ := hselect
    have hmem : "select" ∈ node.keys := Entries.mem_keys_of_get? hselect
    have hinsert := Entries.keys_insert_of_mem hmem (.object (checkBlock block path).value)
    rw [checkMembers_of_select hselect]
    split
    · exact hinsert
    · exact hinsert
    · rw [keys_value_checkChildren fun key check h => hinsert ▸ mem_keys_of_get?_memberCheckers h, hinsert]
  · rw [checkMembers_of_not_select (not_exists.1 hselect)]
    rfl

lemma get?_value_checkMembers (hselect : node.get? "select" = some (.object block)) (name : String) :
    (checkMembers node (memberCheckers node) path).value.get? name =
          Entries.get? (node.insert "select" (.object (checkBlock block path).value)) name ∧
        ((checkMembers node (memberCheckers node) path).fault = none →
          ∀ source, ReadsFrom block source → name ∉ source.childKeys) ∨
      ∃ before v, Takes node before name ∧ node.get? name = some v ∧
        (checkMembers node (memberCheckers node) path).value.get? name =
          some (checkNode v (path ++ "." ++ name)).value := by
  rw [checkMembers_of_select hselect]
  cases hb : (checkBlock block path).fault with
  | some e => exact .inl ⟨rfl, nofun⟩
  | none =>
    cases hs : sourceOf block path (node.contains subqueryKey) with
    | error e => exact .inl ⟨rfl, nofun⟩
    | ok source =>
      have hselects := selectsFrom_of_sourceOf hselect hb hs
      rcases get?_value_checkChildren name with ⟨hkept, hnot⟩ | ⟨before, after, check, hkeys, hbefore, hcheck, hvalue⟩
      · refine .inl ⟨hkept, fun hpass source' hreads => ?_⟩
        rw [hreads.unique (sourceOf_eq_ok_iff.1 hs).1]
        exact hnot hpass
      · obtain ⟨v, hv, rfl⟩ := exists_of_get?_memberCheckers hcheck
        exact .inr ⟨before, v, ⟨⟨source, after, hselects, hkeys⟩, holdsNodes_of_childrenPass hbefore⟩, hv, hvalue⟩

end

end Check

end QueryTree
