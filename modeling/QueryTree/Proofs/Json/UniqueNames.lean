import QueryTree.Proofs.Json.Reading
/-! JSON values whose objects name each member once. Reading a text yields no others, because a repeated
name replaces the value of its first member. -/

namespace QueryTree.Json

mutual

def hasUniqueNames : Json → Bool
  | .array items => itemsHaveUniqueNames items
  | .object members => decide (Entries.keys members).Nodup && membersHaveUniqueNames members
  | .null | .bool _ | .number _ | .string _ => true

def itemsHaveUniqueNames : List Json → Bool
  | [] => true
  | v :: rest => hasUniqueNames v && itemsHaveUniqueNames rest

def membersHaveUniqueNames : List (String × Json) → Bool
  | [] => true
  | (_, v) :: rest => hasUniqueNames v && membersHaveUniqueNames rest

end

lemma itemsHaveUniqueNames_iff {items : List Json} :
    itemsHaveUniqueNames items = true ↔ ∀ v ∈ items, v.hasUniqueNames := by
  induction items with
  | nil => simp [itemsHaveUniqueNames]
  | cons v rest ih => simp [itemsHaveUniqueNames, ih]

lemma membersHaveUniqueNames_iff {ms : Members} :
    membersHaveUniqueNames ms = true ↔ ∀ m ∈ ms, m.2.hasUniqueNames := by
  induction ms with
  | nil => simp [membersHaveUniqueNames]
  | cons m rest ih =>
    obtain ⟨name, v⟩ := m
    simp [membersHaveUniqueNames, ih]

@[simp] lemma hasUniqueNames_array {items : List Json} :
    (Json.array items).hasUniqueNames = true ↔ ∀ v ∈ items, v.hasUniqueNames := by
  rw [hasUniqueNames, itemsHaveUniqueNames_iff]

@[simp] lemma hasUniqueNames_object {ms : Members} :
    (Json.object ms).hasUniqueNames = true ↔ ms.keys.Nodup ∧ ∀ m ∈ ms, m.2.hasUniqueNames := by
  rw [hasUniqueNames, Bool.and_eq_true, decide_eq_true_eq, membersHaveUniqueNames_iff]

lemma hasUniqueNames_of_get? {ms : Members} {name : String} {v : Json} (h : (Json.object ms).hasUniqueNames)
    (hv : ms.get? name = some v) : v.hasUniqueNames :=
  (hasUniqueNames_object.1 h).2 _ (Entries.mem_of_get? hv)

lemma hasUniqueNames_insert {ms : Members} {name : String} {v : Json} (h : (Json.object ms).hasUniqueNames)
    (hv : v.hasUniqueNames) : (Json.object (ms.insert name v)).hasUniqueNames := by
  rw [hasUniqueNames_object] at h ⊢
  refine ⟨Entries.nodup_keys_insert h.1 name v, ?_⟩
  intro m hm
  rcases Entries.mem_insert hm with rfl | hm
  · exact hv
  · exact h.2 m hm

theorem parse?_hasUniqueNames {s : String} {v : Json} (h : parse? s = some v) : v.hasUniqueNames := by
  have hinherited : Inherited maxNesting fun _ v => v.hasUniqueNames := by
    refine ⟨fun {_ v} _ hv => ?_, fun _ => hasUniqueNames_array.2, fun _ hms hmembers => ?_⟩
    · cases v with
      | array | object => cases hv
      | null | bool | number | string => rfl
    · exact hasUniqueNames_object.2 ⟨hms, hmembers⟩
  exact hinherited.parse? h

end QueryTree.Json
