import QueryTree.Proofs.Document.Walk
import QueryTree.Proofs.Field.Stored
/-! The check of what a check leaves. It finds the same fault again and rewrites nothing more, also where the first
check stopped halfway: no check looks at an alias other than whether it is a text, and normalizing twice is
normalizing once. -/

namespace QueryTree.Check

open Json (Members)

def Settles {α : Type} (check : α → Checked α) (a : α) : Prop :=
  check (check a).value = check a

lemma normalizeAliasValue_idem (v : Json) : normalizeAliasValue (normalizeAliasValue v) = normalizeAliasValue v := by
  cases v <;> simp [normalizeAliasValue]

lemma normalizeAlias_idem (attributes : Members) :
    normalizeAlias (normalizeAlias attributes) = normalizeAlias attributes := by
  simp only [normalizeAlias, Entries.modify_modify, normalizeAliasValue_idem]

lemma isTextOrNull_normalizeAliasValue (v : Json) : (normalizeAliasValue v).isTextOrNull = v.isTextOrNull := by
  cases v <;> rfl

lemma get?_normalizeAlias_of_ne (attributes : Members) {attr : String} (h : attr ≠ "as") :
    (normalizeAlias attributes).get? attr = attributes.get? attr := by
  rw [normalizeAlias, Entries.get?_modify, if_neg h.symm]

lemma checkText_normalizeAlias (name : String) (attributes : Members) (attr : String) :
    checkText name (normalizeAlias attributes) attr = checkText name attributes attr := by
  by_cases h : attr = "as"
  · subst h
    rw [checkText, checkText, normalizeAlias, Entries.get?_modify, if_pos rfl]
    cases attributes.get? "as" with
    | none => rfl
    | some v => simp only [Option.map_some, isTextOrNull_normalizeAliasValue]
  · rw [checkText, checkText, get?_normalizeAlias_of_ne attributes h]

lemma checkAttributes_normalizeAlias (name : String) (attributes : Members) :
    checkAttributes name (normalizeAlias attributes) = checkAttributes name attributes := by
  have hget (attr : String) (h : attr ≠ "as") := get?_normalizeAlias_of_ne attributes h
  have hkeys : (normalizeAlias attributes).keys = attributes.keys := Entries.keys_modify ..
  simp only [checkAttributes, checkText_normalizeAlias, checkKnown, hkeys, checkType, checkGroupBy, checkOrderBy,
    checkSelect, hget "type" (by decide), hget "group_by" (by decide), hget "order_by" (by decide),
    hget "select" (by decide)]

lemma settles_checkField (name : String) (v : Json) : Settles (checkField name) v := by
  cases v with
  | object attributes =>
    cases h : checkAttributes name attributes with
    | ok =>
      have h' : checkAttributes name (normalizeAlias attributes) = .ok () :=
        (checkAttributes_normalizeAlias name attributes).trans h
      simp only [Settles, checkField, h, Checked.value_ok, h', normalizeAlias_idem]
    | error e => simp only [Settles, checkField, h, Checked.failed]
  | _ => rfl

lemma settles_checkFields (fields : Members) : Settles checkFields fields := by
  induction fields with
  | nil => rfl
  | cons m fields ih =>
    obtain ⟨name, v⟩ := m
    have hv : checkField name (checkField name v).value = checkField name v := settles_checkField name v
    have hfields : checkFields (checkFields fields).value = checkFields fields := ih
    cases h : (checkField name v).fault with
    | none => simp only [Settles, checkFields, h, Checked.value_map, hv, hfields]
    | some e => simp only [Settles, checkFields, h, Checked.failed, hv]

lemma settles_checkBlock (path : String) (block : Members) : Settles (checkBlock · path) block := by
  unfold Settles
  cases h : block.get? "fields" with
  | none => simp only [checkBlock, h, Checked.failed]
  | some v =>
    cases v with
    | object fields =>
      have hfields : checkFields (checkFields fields).value = checkFields fields := settles_checkFields fields
      let checked : Members := block.insert "fields" (.object (checkFields fields).value)
      have hget : checked.get? "fields" = some (.object (checkFields fields).value) := by
        rw [Entries.get?_insert, if_pos rfl]
      have hinsert : checked.insert "fields" (.object (checkFields fields).value) = checked :=
        Entries.insert_of_get? hget
      have hblock : (checkBlock block path).value = checked := value_checkBlock h path
      rw [hblock]
      simp only [checkBlock, h, hget, hfields]
      cases hf : (checkFields fields).fault with
      | none => simp only [Checked.andThen, Checked.fault_map, hf, Checked.value_map, hinsert, checked]
      | some e => simp only [Checked.andThen, hf, Checked.map, hinsert, checked]
    | _ => simp only [checkBlock, h, Checked.failed]

lemma get?_value_checkChildren_of_not_mem {checks : Entries Checker} {path key : String} {keys : List String}
    (h : key ∉ keys) (node : Members) : (checkChildren checks path keys node).value.get? key = node.get? key := by
  rcases @get?_value_checkChildren checks path keys node key with ⟨hkept, -⟩ | ⟨before, after, _, hkeys, -⟩
  · exact hkept
  · exact absurd (by simp [hkeys]) h

lemma checkChildren_value_checkChildren {checks checks' : Entries Checker} {path : String} {keys : List String}
    (hkeys : keys.Nodup) {node : Members} (hchecks : ∀ key ∈ keys, checks.get? key = (node.get? key).map checkNode)
    (hchecks' : ∀ key ∈ keys, checks'.get? key =
      ((checkChildren checks path keys node).value.get? key).map checkNode)
    (hsettles : ∀ key ∈ keys, ∀ v, node.get? key = some v → Settles (checkNode · (path ++ "." ++ key)) v) :
    checkChildren checks' path keys (checkChildren checks path keys node).value =
      checkChildren checks path keys node := by
  induction keys generalizing node with
  | nil => rfl
  | cons key keys ih =>
    obtain ⟨hkey, hkeys⟩ := List.nodup_cons.1 hkeys
    obtain ⟨hcheck, hchecks⟩ := List.forall_mem_cons.1 hchecks
    obtain ⟨hcheck', hchecks'⟩ := List.forall_mem_cons.1 hchecks'
    obtain ⟨hsettle, hsettles⟩ := List.forall_mem_cons.1 hsettles
    cases hv : node.get? key with
    | none =>
      rw [hv] at hcheck
      rw [checkChildren_cons_of_none hcheck] at hcheck' ⊢
      exact checkChildren_cons_of_none (hcheck'.trans (by rw [Checked.failed, hv]; rfl))
    | some v =>
      rw [hv] at hcheck
      have hagain : checkNode (checkNode v (path ++ "." ++ key)).value (path ++ "." ++ key) =
          checkNode v (path ++ "." ++ key) := hsettle v hv
      let after : Members := node.insert key (checkNode v (path ++ "." ++ key)).value
      have hafter : after.get? key = some (checkNode v (path ++ "." ++ key)).value := by
        rw [Entries.get?_insert, if_pos rfl]
      cases hfault : (checkNode v (path ++ "." ++ key)).fault with
      | some e =>
        rw [checkChildren_cons_of_fault hcheck hfault] at hcheck' ⊢
        have hnext : checks'.get? key = some (checkNode (checkNode v (path ++ "." ++ key)).value) :=
          hcheck'.trans (congrArg (Option.map checkNode) hafter)
        rw [checkChildren_cons_of_fault hnext (hagain.symm ▸ hfault), hagain]
        exact congrArg (Checked.failed · e) (Entries.insert_of_get? hafter)
      | none =>
        -- no key stands twice, so the rest of the walk neither reads nor changes what stands under this one
        have hrest : ∀ k ∈ keys, after.get? k = node.get? k := by
          intro k hk
          have hne : key ≠ k := fun he => hkey (he ▸ hk)
          rw [Entries.get?_insert, if_neg hne]
        rw [checkChildren_cons_of_pass hcheck hfault] at hcheck' hchecks' ⊢
        have hstays : (checkChildren checks path keys after).value.get? key =
            some (checkNode v (path ++ "." ++ key)).value :=
          (get?_value_checkChildren_of_not_mem hkey after).trans hafter
        have hnext : checks'.get? key = some (checkNode (checkNode v (path ++ "." ++ key)).value) :=
          hcheck'.trans (congrArg (Option.map checkNode) hstays)
        rw [checkChildren_cons_of_pass hnext (hagain.symm ▸ hfault), hagain, Entries.insert_of_get? hstays]
        refine ih hkeys (fun k hk => ?_) hchecks' (fun k hk w hw => ?_)
        · rw [hrest k hk]
          exact hchecks k hk
        · exact hsettles k hk w (hrest k hk ▸ hw)

lemma get?_select_value_checkMembers {node block : Members} (h : node.get? "select" = some (.object block))
    (path : String) : (checkMembers node (memberCheckers node) path).value.get? "select" =
      some (.object (checkBlock block path).value) := by
  rcases get?_value_checkMembers h "select" with ⟨hkept, -⟩ | ⟨_, _, htakes, -⟩
  · rw [hkept, Entries.get?_insert, if_pos rfl]
  · exact absurd rfl htakes.ne_select

lemma checkMembers_value_checkMembers {node : Members} {path : String}
    (hsettles : ∀ key v, node.get? key = some v → ∀ path, Settles (checkNode · path) v) :
    checkMembers (checkMembers node (memberCheckers node) path).value
        (memberCheckers (checkMembers node (memberCheckers node) path).value) path =
      checkMembers node (memberCheckers node) path := by
  by_cases hselect : ∃ block, node.get? "select" = some (.object block)
  · obtain ⟨block, hselect⟩ := hselect
    have hselect' := get?_select_value_checkMembers hselect path
    have hblock : checkBlock (checkBlock block path).value path = checkBlock block path := settles_checkBlock path block
    have hcontains : (checkMembers node (memberCheckers node) path).value.contains subqueryKey =
        node.contains subqueryKey := by
      rw [Bool.eq_iff_iff, Entries.contains_iff, Entries.contains_iff, keys_value_checkMembers]
    rw [checkMembers_of_select hselect', hblock, Entries.insert_of_get? hselect', hcontains]
    cases hb : (checkBlock block path).fault with
    | some e => simp only [checkMembers_of_select hselect, hb, Checked.failed]
    | none =>
      rw [sourceOf_checkBlock hb]
      cases hs : sourceOf block path (node.contains subqueryKey) with
      | error e => simp only [checkMembers_of_select hselect, hb, hs, Checked.failed]
      | ok source =>
        have hstep : checkMembers node (memberCheckers node) path =
            checkChildren (memberCheckers node) path source.childKeys
              (node.insert "select" (.object (checkBlock block path).value)) := by
          simp only [checkMembers_of_select hselect, hb, hs]
        have hget : ∀ key ∈ source.childKeys,
            Entries.get? (node.insert "select" (.object (checkBlock block path).value)) key = node.get? key := by
          intro key hk
          rw [Entries.get?_insert, if_neg]
          rintro rfl
          exact source.select_not_mem_childKeys hk
        simp only [hstep]
        refine checkChildren_value_checkChildren source.nodup_childKeys (fun key hk => ?_)
          (fun key _ => get?_memberCheckers _ key) (fun key hk v hv => ?_)
        · rw [hget key hk, get?_memberCheckers]
        · exact hsettles key v (hget key hk ▸ hv) _
  · have hnot : checkMembers node (memberCheckers node) path = .failed node (.notAnObject (path ++ ".select")) :=
      checkMembers_of_not_select (not_exists.1 hselect)
    rw [hnot]
    exact hnot

lemma settles_checkNode (v : Json) (path : String) : Settles (checkNode · path) v := by
  induction v using Json.memberInduction generalizing path with
  | other v hv =>
    cases v with
    | object => cases hv
    | _ => rfl
  | object node ih =>
    have hmembers := @checkMembers_value_checkMembers node path
      fun key v hv path => ih (key, v) (Entries.mem_of_get? hv) path
    simp only [Settles, checkNode, Checked.value_map, hmembers]

lemma settles_checkFlat (block : Members) : Settles checkFlat block := by
  have hblock : checkBlock (checkBlock block rootPath).value rootPath = checkBlock block rootPath :=
    settles_checkBlock rootPath block
  rw [Settles, value_checkFlat, checkFlat, hblock, checkFlat]

theorem check_value_check (v : Json) : check (check v).value = check v := by
  cases v with
  | object members =>
    by_cases hm : "select" ∈ Entries.keys members
    · have hvalue : (check (.object members)).value =
          .object (checkMembers members (memberCheckers members) "select").value := by
        rw [check_of_mem hm]
        rfl
      have hm' : "select" ∈ (checkMembers members (memberCheckers members) "select").value.keys := by
        rwa [keys_value_checkMembers]
      have hnode : Settles (checkNode · "select") (.object members) := settles_checkNode _ _
      rw [hvalue, check_of_mem hm', check_of_mem hm]
      exact hnode
    · have hvalue : (check (.object members)).value = .object (checkFlat members).value := by
        rw [check_of_not_mem hm]
        rfl
      have hm' : "select" ∉ (checkFlat members).value.keys := by
        rwa [value_checkFlat, keys_value_checkBlock]
      have hflat : checkFlat (checkFlat members).value = checkFlat members := settles_checkFlat members
      rw [hvalue, check_of_not_mem hm', check_of_not_mem hm, hflat]
  | _ => rfl

end QueryTree.Check
