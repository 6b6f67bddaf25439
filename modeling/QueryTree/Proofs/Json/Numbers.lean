import Mathlib.Data.Option.Basic
import Mathlib.Tactic.Lemma
import QueryTree.Json.Printer
import QueryTree.Json.Token
import QueryTree.Proofs.Text.Numeral
/-! Numbers in JSON text. A numeral is read as a whole before anything that ends it, integers read back as
themselves, and every written number is a numeral. -/

namespace QueryTree.Json

namespace Token

structure Parts where
  digits : List Char
  fraction : List Char
  exponent : Option Int

def parts? (cs : List Char) : Option (Parts × List Char) := do
  let digits := cs.takeWhile Char.isDigit
  guard (!digits.isEmpty && (digits.length == 1 || digits.head? != some '0'))
  let (fraction, rest) ← fraction? (cs.dropWhile Char.isDigit)
  let (exponent, rest) ← exponent? rest
  return (⟨digits, fraction, exponent⟩, rest)

def Parts.value? (negative : Bool) (p : Parts) : Option Number :=
  if p.fraction.isEmpty && p.exponent.isNone then integer? negative p.digits
  else decimal? negative p.digits p.fraction (p.exponent.getD 0)

lemma unsigned?_eq (negative : Bool) (cs : List Char) :
    unsigned? negative cs = (parts? cs).bind fun r => (r.1.value? negative).map (·, r.2) := by
  simp only [unsigned?, parts?, Option.bind_eq_bind, Option.pure_def, Option.bind_assoc, Option.bind_some]
  congr 1; ext1 _
  congr 1; ext1 f
  congr 1; ext1 e
  rw [Parts.value?]
  dsimp only
  split <;> rw [Option.map_eq_bind] <;> rfl

def Ends (cs : List Char) : Prop :=
  ∀ c ∈ cs.head?, c.isDigit = false ∧ c ≠ '.' ∧ c ≠ 'e' ∧ c ≠ 'E' ∧ c ≠ '+' ∧ c ≠ '-'

lemma Ends.takeWhile {r : List Char} (hr : Ends r) (cs : List Char) :
    (cs ++ r).takeWhile Char.isDigit = cs.takeWhile Char.isDigit := by
  induction cs with
  | nil =>
    cases r with
    | nil => rfl
    | cons c r => exact List.takeWhile_cons_of_neg (by simp [(hr c rfl).1])
  | cons c cs ih => rw [List.cons_append, List.takeWhile_cons, List.takeWhile_cons, ih]

lemma Ends.dropWhile {r : List Char} (hr : Ends r) (cs : List Char) :
    (cs ++ r).dropWhile Char.isDigit = cs.dropWhile Char.isDigit ++ r := by
  induction cs with
  | nil =>
    cases r with
    | nil => rfl
    | cons c r => exact List.dropWhile_cons_of_neg (by simp [(hr c rfl).1])
  | cons c cs ih =>
    rw [List.cons_append, List.dropWhile_cons, List.dropWhile_cons, ih]
    split <;> rfl

variable {r : List Char}

lemma fraction?_append (hr : Ends r) (cs : List Char) :
    fraction? (cs ++ r) = (fraction? cs).map (Prod.map id (· ++ r)) := by
  cases cs with
  | nil =>
    cases r with
    | nil => rfl
    | cons c r => simp [fraction?, (hr c rfl).2.1]
  | cons c cs =>
    by_cases hc : c = '.'
    · simp only [hc, List.cons_append, fraction?, hr.takeWhile, hr.dropWhile]
      split <;> rfl
    · simp [fraction?, hc]

lemma exponentDigits?_append (hr : Ends r) (negative : Bool) (cs : List Char) :
    exponentDigits? negative (cs ++ r) = (exponentDigits? negative cs).map (Prod.map id (· ++ r)) := by
  simp only [exponentDigits?, hr.takeWhile, hr.dropWhile]
  split <;> rfl

def signed? : List Char → Option (Option Int × List Char)
  | '+' :: cs => exponentDigits? false cs
  | '-' :: cs => exponentDigits? true cs
  | cs => exponentDigits? false cs

lemma exponent?_cons (c : Char) (cs : List Char) :
    exponent? (c :: cs) = if c = 'e' ∨ c = 'E' then signed? cs else some (none, c :: cs) := by
  by_cases he : c = 'e'
  · rw [if_pos (.inl he), he]
    rfl
  · by_cases hE : c = 'E'
    · rw [if_pos (.inr hE), hE]
      rfl
    · simp [exponent?, he, hE]

lemma signed?_cons (c : Char) (cs : List Char) :
    signed? (c :: cs) = if c = '+' then exponentDigits? false cs else if c = '-' then exponentDigits? true cs
      else exponentDigits? false (c :: cs) := by
  by_cases hp : c = '+'
  · rw [if_pos hp, hp]
    rfl
  · by_cases hm : c = '-'
    · rw [if_neg hp, if_pos hm, hm]
      rfl
    · simp [signed?, hp, hm]

lemma signed?_append (hr : Ends r) (cs : List Char) :
    signed? (cs ++ r) = (signed? cs).map (Prod.map id (· ++ r)) := by
  cases cs with
  | nil =>
    cases r with
    | nil => rfl
    | cons c r =>
      obtain ⟨hd, -, -, -, hp, hm⟩ := hr c rfl
      rw [List.nil_append, signed?_cons, if_neg hp, if_neg hm]
      exact exponentDigits?_append hr false []
  | cons c cs =>
    rw [List.cons_append, signed?_cons, signed?_cons, exponentDigits?_append hr, exponentDigits?_append hr]
    split
    · rfl
    · split
      · rfl
      · exact exponentDigits?_append hr false (c :: cs)

lemma exponent?_append (hr : Ends r) (cs : List Char) :
    exponent? (cs ++ r) = (exponent? cs).map (Prod.map id (· ++ r)) := by
  cases cs with
  | nil =>
    cases r with
    | nil => rfl
    | cons c r =>
      obtain ⟨-, -, he, hE, -⟩ := hr c rfl
      rw [List.nil_append, exponent?_cons, if_neg (not_or.2 ⟨he, hE⟩)]
      rfl
  | cons c cs =>
    rw [List.cons_append, exponent?_cons, exponent?_cons]
    split
    · exact signed?_append hr cs
    · rfl

lemma parts?_append (hr : Ends r) (cs : List Char) :
    parts? (cs ++ r) = (parts? cs).map (Prod.map id (· ++ r)) := by
  rw [parts?, parts?, hr.takeWhile, hr.dropWhile, fraction?_append hr]
  simp only [Option.bind_eq_bind, Option.bind_map, Option.map_bind]
  congr 1; funext _
  rw [Function.comp, Option.map_bind]
  congr 1; funext f
  simp only [Function.comp, Prod.map, exponent?_append hr, Option.bind_map, Option.map_bind]
  rfl

lemma unsigned?_append (hr : Ends r) (negative : Bool) (cs : List Char) :
    unsigned? negative (cs ++ r) = (unsigned? negative cs).map (Prod.map id (· ++ r)) := by
  simp only [unsigned?_eq, parts?_append hr, Option.bind_map, Option.map_bind]
  congr 1; funext p
  simp only [Function.comp, Option.map_map]
  rfl

lemma number?_cons (c : Char) (cs : List Char) :
    number? (c :: cs) = if c = '-' then unsigned? true cs else unsigned? false (c :: cs) := by
  by_cases hc : c = '-'
  · rw [if_pos hc, hc]
    rfl
  · simp [number?, hc]

lemma number?_append (hr : Ends r) (cs : List Char) :
    number? (cs ++ r) = (number? cs).map (Prod.map id (· ++ r)) := by
  cases cs with
  | nil =>
    cases r with
    | nil => rfl
    | cons c r =>
      rw [List.nil_append, number?_cons, if_neg (hr c rfl).2.2.2.2.2]
      exact unsigned?_append hr false []
  | cons c cs =>
    rw [List.cons_append, number?_cons, number?_cons]
    split
    · exact unsigned?_append hr true cs
    · exact unsigned?_append hr false (c :: cs)

def IsDigits (cs : List Char) : Prop :=
  cs ≠ [] ∧ ∀ c ∈ cs, c.isDigit

lemma isDigits_toDigits (n : Nat) : IsDigits (Nat.toDigits 10 n) :=
  ⟨Nat.toDigits_ne_nil, fun _ h => Nat.isDigit_of_mem_toDigits (by decide) (by decide) h⟩

lemma IsDigits.takeWhile {ds : List Char} (h : IsDigits ds) (hr : ∀ c ∈ r.head?, c.isDigit = false) :
    (ds ++ r).takeWhile Char.isDigit = ds := by
  rw [List.takeWhile_append_of_pos h.2]
  cases r with
  | nil => exact List.append_nil ds
  | cons c r => rw [List.takeWhile_cons_of_neg (by simp [hr c rfl]), List.append_nil]

lemma IsDigits.dropWhile {ds : List Char} (h : IsDigits ds) (hr : ∀ c ∈ r.head?, c.isDigit = false) :
    (ds ++ r).dropWhile Char.isDigit = r := by
  rw [List.dropWhile_append_of_pos h.2]
  cases r with
  | nil => rfl
  | cons c r => exact List.dropWhile_cons_of_neg (by simp [hr c rfl])

def IsFraction (cs : List Char) : Prop :=
  cs = [] ∨ ∃ ds, cs = '.' :: ds ∧ IsDigits ds

def IsExponent (cs : List Char) : Prop :=
  cs = [] ∨ ∃ sign ds, cs = 'e' :: sign :: ds ∧ (sign = '+' ∨ sign = '-') ∧ IsDigits ds

lemma IsExponent.rest_eq_nil {cs rest : List Char} {e : Option Int} (hcs : IsExponent cs)
    (h : exponent? cs = some (e, rest)) : rest = [] := by
  have hdigits {negative : Bool} {ds : List Char} (hd : IsDigits ds)
      (h : exponentDigits? negative ds = some (e, rest)) : rest = [] := by
    simp only [exponentDigits?, Option.ite_none_left_eq_some, Option.some.injEq, Prod.mk.injEq] at h
    rw [← h.2.2]
    simpa using hd.dropWhile (r := []) nofun
  obtain rfl | ⟨sign, ds, rfl, rfl | rfl, hd⟩ := hcs
  · cases h
    rfl
  · exact hdigits hd h
  · exact hdigits hd h

def IsNumeral (cs : List Char) : Prop :=
  ∃ whole fraction exponent, cs = whole ++ (fraction ++ exponent) ∧ IsDigits whole ∧ IsFraction fraction ∧
    IsExponent exponent

lemma IsExponent.head {cs : List Char} (h : IsExponent cs) : ∀ c ∈ cs.head?, c.isDigit = false := by
  obtain rfl | ⟨sign, ds, rfl, -⟩ := h
  · nofun
  · rintro c ⟨⟩
    rfl

lemma IsFraction.read {fraction exponent : List Char} (hf : IsFraction fraction) (he : IsExponent exponent) :
    (∀ c ∈ (fraction ++ exponent).head?, c.isDigit = false) ∧
      ∃ ds, fraction? (fraction ++ exponent) = some (ds, exponent) := by
  obtain rfl | ⟨ds, rfl, hd⟩ := hf
  · refine ⟨he.head, [], ?_⟩
    obtain rfl | ⟨sign, ds, rfl, -⟩ := he <;> rfl
  · refine ⟨by rintro c ⟨⟩; rfl, ds, ?_⟩
    have hne : ds.isEmpty = false := by simpa using hd.1
    simp [fraction?, hd.takeWhile he.head, hd.dropWhile he.head, hne]

lemma IsNumeral.rest_eq_nil {cs rest : List Char} {p : Parts} (hcs : IsNumeral cs)
    (h : parts? cs = some (p, rest)) : rest = [] := by
  obtain ⟨whole, fraction, exponent, rfl, hw, hf, he⟩ := hcs
  obtain ⟨hhead, ds, hfraction⟩ := hf.read he
  simp only [parts?, Option.bind_eq_bind, hw.dropWhile hhead, hfraction, Option.bind_eq_some_iff] at h
  obtain ⟨-, -, _, ⟨⟩, e, hexponent, h⟩ := h
  cases h
  exact he.rest_eq_nil hexponent

lemma isDigit_zeros {n : Nat} : ∀ c ∈ zeros n, c.isDigit := by
  intro c hc
  rw [List.eq_of_mem_replicate hc]
  rfl

lemma isDigits_zero : IsDigits ['0'] :=
  ⟨nofun, List.forall_mem_singleton.2 rfl⟩

lemma IsDigits.append {ds es : List Char} (h : IsDigits ds) (he : ∀ c ∈ es, c.isDigit) : IsDigits (ds ++ es) :=
  ⟨by simp [h.1], List.forall_mem_append.2 ⟨h.2, he⟩⟩

lemma IsDigits.take {ds : List Char} (h : IsDigits ds) (n : Nat) : IsDigits (ds.take (n + 1)) :=
  ⟨by simp [h.1], fun c hc => h.2 c (List.mem_of_mem_take hc)⟩

lemma IsDigits.drop {ds : List Char} (h : IsDigits ds) {n : Nat} (hn : ds.drop n ≠ []) : IsDigits (ds.drop n) :=
  ⟨hn, fun c hc => h.2 c (List.mem_of_mem_drop hc)⟩

lemma isNumeral_toDigits (n : Nat) : IsNumeral (Nat.toDigits 10 n) :=
  ⟨_, [], [], by simp, isDigits_toDigits n, .inl rfl, .inl rfl⟩

lemma isNumeral_positionalText {ds : List Char} (h : IsDigits ds) (e : Int) : IsNumeral (positionalText ds e) := by
  cases e with
  | negSucc n =>
    have hpart : IsDigits (zeros n ++ ds) := ⟨by simp [h.1], List.forall_mem_append.2 ⟨isDigit_zeros, h.2⟩⟩
    exact ⟨['0'], '.' :: (zeros n ++ ds), [], by simp [positionalText], isDigits_zero, .inr ⟨_, rfl, hpart⟩, .inl rfl⟩
  | ofNat n =>
    have hwhole := (h.take n).append (isDigit_zeros (n := n + 1 - (ds.take (n + 1)).length))
    have hpart : IsDigits (if (ds.drop (n + 1)).isEmpty then ['0'] else ds.drop (n + 1)) := by
      split
      · exact isDigits_zero
      · next hn => exact h.drop (by simpa using hn)
    exact ⟨_, _, [], by simp [positionalText], hwhole, .inr ⟨_, rfl, hpart⟩, .inl rfl⟩

lemma isNumeral_exponentText {ds : List Char} (h : IsDigits ds) (e : Int) : IsNumeral (exponentText ds e) := by
  have hsign : (if e < 0 then '-' else '+') = '+' ∨ (if e < 0 then '-' else '+') = '-' := by split <;> simp
  have hpart : IsFraction (if (ds.drop 1).isEmpty then [] else '.' :: ds.drop 1) := by
    split
    · exact .inl rfl
    · next hn => exact .inr ⟨_, rfl, h.drop (by simpa using hn)⟩
  exact ⟨_, _, _, List.append_assoc .., h.take 0, hpart, .inr ⟨_, _, rfl, hsign, isDigits_toDigits _⟩⟩

lemma isNumeral_magnitudeText (x : Binary64) : IsNumeral (magnitudeText x) := by
  simp only [magnitudeText]
  split
  · exact ⟨['0'], ['.', '0'], [], rfl, isDigits_zero, .inr ⟨['0'], rfl, isDigits_zero⟩, .inl rfl⟩
  · split
    · exact isNumeral_positionalText (isDigits_toDigits _) _
    · exact isNumeral_exponentText (isDigits_toDigits _) _

def IsSigned (cs : List Char) : Prop :=
  IsNumeral cs ∨ ∃ ds, cs = '-' :: ds ∧ IsNumeral ds

lemma isSigned_text (n : Number) : IsSigned n.text.toList := by
  cases n with
  | natural n => exact .inl (Nat.toList_repr ▸ isNumeral_toDigits n.toNat)
  | negative k =>
    refine .inr ⟨Nat.toDigits 10 (k.val + 1), ?_, isNumeral_toDigits _⟩
    rw [Number.text, String.toList_append]
    exact congrArg _ Nat.toList_repr
  | double x =>
    rw [Number.text, String.toList_ofList]
    cases x.negative with
    | false => exact .inl (isNumeral_magnitudeText x)
    | true => exact .inr ⟨_, rfl, isNumeral_magnitudeText x⟩

lemma IsNumeral.head {cs : List Char} (h : IsNumeral cs) : ∃ c rest, cs = c :: rest ∧ c.isDigit := by
  obtain ⟨_ | ⟨c, whole⟩, fraction, exponent, rfl, hw, -⟩ := h
  · exact absurd rfl hw.1
  · exact ⟨c, _, rfl, hw.2 c List.mem_cons_self⟩

lemma IsSigned.head {cs : List Char} (h : IsSigned cs) : ∃ c rest, cs = c :: rest ∧ (c = '-' ∨ c.isDigit) := by
  obtain hn | ⟨ds, rfl, -⟩ := h
  · obtain ⟨c, rest, rfl, hc⟩ := hn.head
    exact ⟨c, rest, rfl, .inr hc⟩
  · exact ⟨'-', ds, rfl, .inl rfl⟩

lemma IsSigned.rest_eq_nil {cs rest : List Char} {n : Number} (hcs : IsSigned cs)
    (h : number? cs = some (n, rest)) : rest = [] := by
  have hunsigned {negative : Bool} {ds : List Char} (hd : IsNumeral ds)
      (h : unsigned? negative ds = some (n, rest)) : rest = [] := by
    rw [unsigned?_eq, Option.bind_eq_some_iff] at h
    obtain ⟨⟨p, rest'⟩, hp, h⟩ := h
    obtain ⟨m, -, h⟩ := Option.map_eq_some_iff.1 h
    cases h
    exact hd.rest_eq_nil hp
  obtain hn | ⟨ds, rfl, hd⟩ := hcs
  · obtain ⟨c, ds, rfl, hc⟩ := hn.head
    have hminus : c ≠ '-' := by rintro rfl; exact absurd hc (by decide)
    rw [number?_cons, if_neg hminus] at h
    exact hunsigned hn h
  · exact hunsigned hd h

lemma fitDigits_eq {n : Nat} {cs : List Char} (h : Text.digitsValue n cs < UInt64.size) :
    fitDigits n cs = (Text.digitsValue n cs, []) := by
  induction cs generalizing n with
  | nil => rfl
  | cons c cs ih =>
    have hstep : Text.digitsValue n (c :: cs) = Text.digitsValue (10 * n + Text.digitValue c) cs := rfl
    rw [hstep] at h ⊢
    have hle := Text.le_digitsValue (10 * n + Text.digitValue c) cs
    rw [fitDigits, if_pos (by omega), ih h]

lemma digitsValue_toDigits (n : Nat) : Text.digitsValue 0 (Nat.toDigits 10 n) = n :=
  Nat.ofDigitChars_ten_toDigits

lemma integer?_toDigits (negative : Bool) {n : Nat} (h : n < UInt64.size) :
    integer? negative (Nat.toDigits 10 n) =
      if !negative then some (.natural (.ofNat n))
      else if h : n - 1 < negativeCount ∧ 0 < n then some (.negative ⟨n - 1, h.1⟩)
      else (Binary64.ofDecimal? negative n 0).map .double := by
  have hfit : fitDigits 0 (Nat.toDigits 10 n) = (n, []) := by
    have hlt : Text.digitsValue 0 (Nat.toDigits 10 n) < UInt64.size := by rwa [digitsValue_toDigits]
    rw [fitDigits_eq hlt, digitsValue_toDigits]
  simp [integer?, hfit]

lemma head?_toDigits {n : Nat} (h : 0 < n) : (Nat.toDigits 10 n).head? ≠ some '0' := by
  induction n using Nat.strongRecOn with
  | ind n ih =>
    by_cases hn : n < 10
    · rw [Nat.toDigits_of_lt_base hn]
      have : ∀ n < 10, 0 < n → [n.digitChar].head? ≠ some '0' := by decide
      exact this n hn h
    · rw [Nat.toDigits_of_base_le (by decide) (by omega), List.head?_append, ne_eq, Option.or_eq_some_iff]
      rintro (hs | ⟨hnone, -⟩)
      · exact ih (n / 10) (by omega) (by omega) hs
      · exact Nat.toDigits_ne_nil (List.head?_eq_none_iff.1 hnone)

lemma parts?_toDigits (n : Nat) : parts? (Nat.toDigits 10 n) = some (⟨Nat.toDigits 10 n, [], none⟩, []) := by
  have hd := isDigits_toDigits n
  have htake : (Nat.toDigits 10 n).takeWhile Char.isDigit = Nat.toDigits 10 n := by
    simpa using hd.takeWhile (r := []) nofun
  have hdrop : (Nat.toDigits 10 n).dropWhile Char.isDigit = [] := by
    simpa using hd.dropWhile (r := []) nofun
  have hzero : (Nat.toDigits 10 n).length = 1 ∨ (Nat.toDigits 10 n).head? ≠ some '0' := by
    rcases Nat.eq_zero_or_pos n with rfl | hn
    · exact .inl rfl
    · exact .inr (head?_toDigits hn)
  have hguard : (!(Nat.toDigits 10 n).isEmpty &&
      ((Nat.toDigits 10 n).length == 1 || (Nat.toDigits 10 n).head? != some '0')) = true := by
    simpa [hd.1] using hzero
  rw [parts?, htake, hdrop, hguard]
  rfl

lemma unsigned?_toDigits (negative : Bool) (n : Nat) :
    unsigned? negative (Nat.toDigits 10 n) = (integer? negative (Nat.toDigits 10 n)).map (·, []) := by
  rw [unsigned?_eq, parts?_toDigits, Option.bind_some, Parts.value?]
  simp only [List.isEmpty_nil, Option.isNone_none, Bool.and_self, if_true]

end Token

/-- The number that the text of a number reads as; a binary number may not read as itself, or be too large. -/
def Number.readBack? (n : Number) : Option Number :=
  (Token.number? n.text.toList).map Prod.fst

lemma Number.readBack?_natural (n : UInt64) : readBack? (.natural n) = some (.natural n) := by
  have htext : (Number.natural n).text.toList = Nat.toDigits 10 n.toNat := Nat.toList_repr
  have hnumber : Token.number? (Nat.toDigits 10 n.toNat) = Token.unsigned? false (Nat.toDigits 10 n.toNat) := by
    obtain ⟨c, ds, hcs, hc⟩ := (Token.isNumeral_toDigits n.toNat).head
    rw [hcs, Token.number?_cons, if_neg (by rintro rfl; exact absurd hc (by decide))]
  rw [readBack?, htext, hnumber, Token.unsigned?_toDigits, Token.integer?_toDigits false n.toNat_lt_size]
  simp

lemma Number.readBack?_negative (k : Fin negativeCount) : readBack? (.negative k) = some (.negative k) := by
  have htext : (Number.negative k).text.toList = '-' :: Nat.toDigits 10 (k.val + 1) := by
    rw [Number.text, String.toList_append]
    exact congrArg _ Nat.toList_repr
  have hk := k.isLt
  have hsize : k.val + 1 < UInt64.size := by
    simp only [negativeCount] at hk
    simp only [UInt64.size]
    omega
  have hnumber : Token.number? ('-' :: Nat.toDigits 10 (k.val + 1)) =
    Token.unsigned? true (Nat.toDigits 10 (k.val + 1)) := rfl
  rw [readBack?, htext, hnumber, Token.unsigned?_toDigits, Token.integer?_toDigits true hsize]
  simp [hk]

lemma Token.number?_text_append (n : Number) {r : List Char} (hr : Ends r) :
    number? (n.text.toList ++ r) = n.readBack?.map (·, r) := by
  rw [number?_append hr, Number.readBack?]
  cases h : number? n.text.toList with
  | none => rfl
  | some m =>
    obtain ⟨m, rest⟩ := m
    obtain rfl := (isSigned_text n).rest_eq_nil h
    rfl

end QueryTree.Json
