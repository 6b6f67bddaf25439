import QueryTree.Proofs.Json.Reading
/-! How deep a value nests arrays and objects. Reading yields no value that nests deeper than it may. -/

namespace QueryTree.Json

mutual

def nesting : Json → Nat
  | .array items => itemsNesting items + 1
  | .object members => membersNesting members + 1
  | .null | .bool _ | .number _ | .string _ => 0

def itemsNesting : List Json → Nat
  | [] => 0
  | v :: rest => max (nesting v) (itemsNesting rest)

def membersNesting : List (String × Json) → Nat
  | [] => 0
  | (_, v) :: rest => max (nesting v) (membersNesting rest)

end

lemma itemsNesting_le_iff {items : List Json} {n : Nat} : itemsNesting items ≤ n ↔ ∀ v ∈ items, v.nesting ≤ n := by
  induction items with
  | nil => simp [itemsNesting]
  | cons v rest ih => rw [itemsNesting, Nat.max_le, ih, List.forall_mem_cons]

lemma membersNesting_le_iff {ms : Members} {n : Nat} : membersNesting ms ≤ n ↔ ∀ m ∈ ms, m.2.nesting ≤ n := by
  induction ms with
  | nil => simp [membersNesting]
  | cons m rest ih =>
    obtain ⟨name, v⟩ := m
    rw [membersNesting, Nat.max_le, ih, List.forall_mem_cons]

lemma nesting_object_le_iff {ms : Members} {n : Nat} :
    (Json.object ms).nesting ≤ n + 1 ↔ ∀ m ∈ ms, m.2.nesting ≤ n := by
  rw [nesting, Nat.add_le_add_iff_right, membersNesting_le_iff]

lemma nesting_of_not_isContainer {v : Json} (h : v.isContainer = false) : v.nesting = 0 := by
  cases v with
  | array | object => cases h
  | null | bool | number | string => rfl

theorem parse?_nesting_le {s : String} {v : Json} (h : parse? s = some v) : v.nesting ≤ maxNesting := by
  have hinherited : Inherited maxNesting fun depth v => v.nesting + depth ≤ maxNesting := by
    refine ⟨fun hdepth hv => ?_, fun {depth items} hdepth hitems => ?_, fun {depth ms} hdepth _ hmembers => ?_⟩
    · rwa [nesting_of_not_isContainer hv, Nat.zero_add]
    · have hle : itemsNesting items ≤ maxNesting - (depth + 1) :=
        itemsNesting_le_iff.2 fun v hv => Nat.le_sub_of_add_le (hitems v hv)
      rw [nesting]
      omega
    · have hle : membersNesting ms ≤ maxNesting - (depth + 1) :=
        membersNesting_le_iff.2 fun m hm => Nat.le_sub_of_add_le (hmembers m hm)
      rw [nesting]
      omega
  exact hinherited.parse? h

end QueryTree.Json
