import QueryTree.Text.Blank
/-!
Texts up to blanks and the case of ASCII letters.
-/

namespace QueryTree.Sql

def squashChars (cs : List Char) : List Char :=
  (cs.filter fun c => !Text.isBlank c).map Char.toLower

def squash (s : String) : String :=
  .ofList (squashChars s.toList)

theorem squashChars_append (cs ds : List Char) : squashChars (cs ++ ds) = squashChars cs ++ squashChars ds := by
  simp [squashChars]

theorem squashChars_cons (c : Char) (cs : List Char) : squashChars (c :: cs) = squashChars [c] ++ squashChars cs :=
  squashChars_append [c] cs

theorem squashChars_of_blank {cs : List Char} (h : ∀ c ∈ cs, Text.isBlank c) : squashChars cs = [] := by
  rw [squashChars, List.map_eq_nil_iff, List.filter_eq_nil_iff]
  simpa using h

theorem squashChars_replicate {c : Char} (h : Text.isBlank c) (n : Nat) : squashChars (List.replicate n c) = [] :=
  squashChars_of_blank fun _ hd => (List.eq_of_mem_replicate hd).symm ▸ h

theorem toUpper_ascii : ∀ n < 128, squashChars [(Char.ofNat n).toUpper] = squashChars [Char.ofNat n] := by
  decide

theorem toUpper_eq_self {c : Char} (h : 128 ≤ c.toNat) : c.toUpper = c := by
  unfold Char.toUpper
  split
  · next hc =>
    have : c.toNat ≤ 122 := UInt32.le_iff_toNat_le.1 hc.2
    omega
  · rfl

theorem squashChars_toUpper (c : Char) : squashChars [c.toUpper] = squashChars [c] := by
  by_cases h : c.toNat < 128
  · simpa using toUpper_ascii c.toNat h
  · rw [toUpper_eq_self (by omega)]

theorem squashChars_map_toUpper (cs : List Char) : squashChars (cs.map Char.toUpper) = squashChars cs := by
  induction cs with
  | nil => rfl
  | cons c cs ih => rw [List.map_cons, squashChars_cons, squashChars_toUpper, ih, ← squashChars_cons]

end QueryTree.Sql
