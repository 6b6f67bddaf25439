import Mathlib.Tactic.Lemma
import QueryTree.Text.Blank
import QueryTree.Text.Numeral
/-! Texts without blanks, and the numerals among them: trimming keeps them, and a written number reads back. -/

namespace QueryTree.Text

lemma trimChars_of_not_blank {cs : List Char} (h : ∀ c ∈ cs, ¬ isBlank c) : trimChars cs = cs := by
  have hdrop : ∀ ds : List Char, (∀ c ∈ ds, ¬ isBlank c) → ds.dropWhile isBlank = ds := by
    intro ds hds
    cases ds with
    | nil => rfl
    | cons d ds => exact List.dropWhile_cons_of_neg (hds d List.mem_cons_self)
  rw [trimChars, hdrop cs h, hdrop _ fun c hc => h c (List.mem_reverse.1 hc), List.reverse_reverse]

lemma trim_of_not_blank {s : String} (h : ∀ c ∈ s.toList, ¬ isBlank c) : trim s = s := by
  rw [trim, trimChars_of_not_blank h, String.ofList_toList]

lemma not_isBlank_of_isDigit {c : Char} (h : c.isDigit) : ¬ isBlank c := by
  have hc : 48 ≤ c.toNat ∧ c.toNat ≤ 57 := by simpa [Char.isDigit, UInt32.le_iff_toNat_le] using h
  simp [isBlank, blankRanges]
  omega

lemma le_digitsValue (n : Nat) (cs : List Char) : n ≤ digitsValue n cs := by
  induction cs generalizing n with
  | nil => exact Nat.le_refl n
  | cons c cs ih =>
    calc n ≤ 10 * n + digitValue c := by omega
      _ ≤ digitsValue n (c :: cs) := ih (10 * n + digitValue c)

lemma naturalText_toList (n : UInt64) : (naturalText n).toList = Nat.toDigits 10 n.toNat :=
  Nat.toList_repr

lemma isDigit_naturalText (n : UInt64) : ∀ c ∈ (naturalText n).toList, c.isDigit := by
  intro c hc
  rw [naturalText_toList] at hc
  exact Nat.isDigit_of_mem_toDigits (by decide) (by decide) hc

lemma naturalText_not_blank (n : UInt64) : ∀ c ∈ (naturalText n).toList, ¬ isBlank c :=
  fun c hc => not_isBlank_of_isDigit (isDigit_naturalText n c hc)

lemma naturalText_ne_nil (n : UInt64) : (naturalText n).toList ≠ [] := by
  rw [naturalText_toList]
  exact Nat.toDigits_ne_nil

lemma isBlankText_naturalText (n : UInt64) : isBlankText (naturalText n) = false := by
  obtain ⟨c, hc⟩ := List.exists_mem_of_ne_nil _ (naturalText_ne_nil n)
  rw [isBlankText, List.all_eq_false]
  exact ⟨c, hc, naturalText_not_blank n c hc⟩

lemma naturalOfDigits?_naturalText (n : UInt64) : naturalOfDigits? (naturalText n).toList = some n := by
  have hd : (naturalText n).toList.all Char.isDigit = true := List.all_eq_true.2 (isDigit_naturalText n)
  have hv : digitsValue 0 (naturalText n).toList = n.toNat := by
    rw [naturalText_toList]
    exact Nat.ofDigitChars_ten_toDigits
  simp [naturalOfDigits?, naturalText_ne_nil n, hd, hv, n.toNat_lt_size]

lemma natural?_naturalText (n : UInt64) : natural? (naturalText n) = some n := by
  unfold natural?
  split
  · next cs h =>
    have hm : '+' ∈ (naturalText n).toList := by simp [h]
    exact absurd (isDigit_naturalText n _ hm) (by decide)
  · exact naturalOfDigits?_naturalText n

end QueryTree.Text
