import Mathlib.Tactic.Lemma
import QueryTree.Proofs.Json.Numbers
/-! The tokens of JSON text. Every token takes a character, so the tokens of a text never run out of fuel,
and written text is split token by token. -/

namespace QueryTree.Json

namespace Token

lemma string?_length {met cs s rest : List Char} (h : string? met cs = some (s, rest)) :
    rest.length < cs.length := by
  fun_induction string? met cs with
  | case2 met rest' =>
    simp only [Option.some.injEq, Prod.mk.injEq] at h
    simp [h.2]
  | case1 | case3 | case5 | case6 | case7 | case9 | case12 | case13 => cases h
  | case4 | case8 | case10 | case11 | case14 =>
    rename_i ih
    have := ih h
    simp only [List.length_cons] at this ⊢
    omega

lemma exponentDigits?_suffix {negative : Bool} {cs rest : List Char} {e : Option Int}
    (h : exponentDigits? negative cs = some (e, rest)) : rest <:+ cs := by
  simp only [exponentDigits?, Option.ite_none_left_eq_some, Option.some.injEq, Prod.mk.injEq] at h
  rw [← h.2.2]
  exact List.dropWhile_suffix _

lemma signed?_suffix {cs rest : List Char} {e : Option Int} (h : signed? cs = some (e, rest)) : rest <:+ cs := by
  unfold signed? at h
  split at h
  · exact (exponentDigits?_suffix h).trans (List.suffix_cons ..)
  · exact (exponentDigits?_suffix h).trans (List.suffix_cons ..)
  · exact exponentDigits?_suffix h

lemma exponent?_suffix {cs rest : List Char} {e : Option Int} (h : exponent? cs = some (e, rest)) :
    rest <:+ cs := by
  cases cs with
  | nil =>
    cases h
    exact List.suffix_refl []
  | cons c cs =>
    rw [exponent?_cons] at h
    split at h
    · exact (signed?_suffix h).trans (List.suffix_cons ..)
    · cases h
      exact List.suffix_refl _

lemma fraction?_suffix {cs rest ds : List Char} (h : fraction? cs = some (ds, rest)) : rest <:+ cs := by
  unfold fraction? at h
  split at h
  · simp only [Option.ite_none_left_eq_some, Option.some.injEq, Prod.mk.injEq] at h
    rw [← h.2.2]
    exact (List.dropWhile_suffix _).trans (List.suffix_cons ..)
  · cases h
    exact List.suffix_refl _

lemma parts?_length {cs rest : List Char} {p : Parts} (h : parts? cs = some (p, rest)) :
    rest.length < cs.length := by
  simp only [parts?, Option.bind_eq_bind, Option.bind_eq_some_iff] at h
  obtain ⟨_, hguard, ⟨ds, rest₁⟩, hfraction, ⟨e, rest₂⟩, hexponent, h⟩ := h
  obtain ⟨-, rfl⟩ := Prod.mk.inj (Option.some.inj h)
  have hrest : rest₂.length ≤ (cs.dropWhile Char.isDigit).length :=
    ((exponent?_suffix hexponent).trans (fraction?_suffix hfraction)).length_le
  have hdigits : 0 < (cs.takeWhile Char.isDigit).length := by
    rw [List.length_pos_iff]
    intro hnil
    rw [hnil] at hguard
    cases hguard
  have hsum : cs.length = (cs.takeWhile Char.isDigit).length + (cs.dropWhile Char.isDigit).length := by
    rw [← List.length_append, List.takeWhile_append_dropWhile]
  show rest₂.length < cs.length
  omega

lemma unsigned?_length {negative : Bool} {cs rest : List Char} {n : Number}
    (h : unsigned? negative cs = some (n, rest)) : rest.length < cs.length := by
  rw [unsigned?_eq, Option.bind_eq_some_iff] at h
  obtain ⟨⟨p, rest'⟩, hp, h⟩ := h
  obtain ⟨m, -, h⟩ := Option.map_eq_some_iff.1 h
  cases h
  exact parts?_length hp

lemma number?_length {cs rest : List Char} {n : Number} (h : number? cs = some (n, rest)) :
    rest.length < cs.length := by
  unfold number? at h
  split at h
  · exact Nat.lt_succ_of_lt (unsigned?_length h)
  · exact unsigned?_length h

lemma next?_length {cs rest : List Char} {t : Token} (h : next? cs = some (t, rest)) :
    rest.length < cs.length := by
  unfold next? at h
  split at h
  case h_10 =>
    obtain ⟨⟨s, rest'⟩, hs, h⟩ := Option.map_eq_some_iff.1 h
    cases h
    exact Nat.lt_succ_of_lt (string?_length hs)
  case h_11 =>
    obtain ⟨⟨n, rest'⟩, hn, h⟩ := Option.map_eq_some_iff.1 h
    cases h
    exact number?_length hn
  all_goals
    cases h
    simp only [List.length_cons]
    omega

def lex (cs : List Char) : List Token :=
  split (cs.length + 1) cs

lemma split_congr {fuel fuel' : Nat} {cs : List Char} (h : cs.length < fuel) (h' : cs.length < fuel') :
    split fuel cs = split fuel' cs := by
  induction fuel generalizing fuel' cs with
  | zero => exact absurd h (Nat.not_lt_zero _)
  | succ fuel ih =>
    obtain _ | fuel' := fuel'
    · exact absurd h' (Nat.not_lt_zero _)
    rw [split, split]
    have hdrop : (cs.dropWhile isSpace).length ≤ cs.length := (List.dropWhile_suffix _).length_le
    cases hcs : cs.dropWhile isSpace with
    | nil => rfl
    | cons c ds =>
      rw [hcs] at hdrop
      cases hnext : next? (c :: ds) with
      | none => simp only [hnext]
      | some r =>
        obtain ⟨t, rest⟩ := r
        have hrest := next?_length hnext
        have hfuel : split fuel rest = split fuel' rest := ih (by omega) (by omega)
        simp only [hnext, hfuel]

lemma split_eq_lex {fuel : Nat} {cs : List Char} (h : cs.length < fuel) : split fuel cs = lex cs :=
  split_congr h (Nat.lt_succ_self _)

lemma lex_space {c : Char} (hc : isSpace c) (cs : List Char) : lex (c :: cs) = lex cs := by
  have hdrop : (c :: cs).dropWhile isSpace = cs.dropWhile isSpace := List.dropWhile_cons_of_pos hc
  have hsplit : split ((c :: cs).length + 1) (c :: cs) = split ((c :: cs).length + 1) cs := by
    rw [split, split, hdrop]
  rw [lex, hsplit, split_eq_lex (by simp only [List.length_cons]; omega)]

lemma lex_some {c : Char} {cs rest : List Char} {t : Token} (hc : isSpace c = false)
    (h : next? (c :: cs) = some (t, rest)) : lex (c :: cs) = t :: lex rest := by
  have hdrop : (c :: cs).dropWhile isSpace = c :: cs := List.dropWhile_cons_of_neg (by simp [hc])
  have hrest := next?_length h
  rw [lex, split, hdrop]
  simp only [h]
  rw [split_eq_lex hrest]

lemma lex_none {c : Char} {cs : List Char} (hc : isSpace c = false) (h : next? (c :: cs) = none) :
    lex (c :: cs) = [invalid] := by
  have hdrop : (c :: cs).dropWhile isSpace = c :: cs := List.dropWhile_cons_of_neg (by simp [hc])
  rw [lex, split, hdrop]
  simp only [h]

lemma string?_plain {c : Char} (hquote : c ≠ '\x22') (hslash : c ≠ '\\') (hcode : 0x20 ≤ c.toNat)
    (met rest : List Char) : string? met (c :: rest) = string? (c :: met) rest := by
  have hplain : ¬ (decide (c.toNat < 0x20) || c == '\\') := by simp [hcode, hslash]
  rw [string?, if_neg hplain]
  · exact hquote
  · exact fun _ _ _ _ _ h _ => hslash h
  · exact fun _ _ h _ => hslash h

lemma string?_control {c : Char} (hc : c.toNat < 0x20) (met rest : List Char) :
    string? met ('\\' :: 'u' :: '0' :: '0' :: Text.hexDigit (c.toNat / 16) :: Text.hexDigit (c.toNat % 16) :: rest) =
      string? (c :: met) rest := by
  have hunit : ∀ u < 0x20, unit? '0' '0' (Text.hexDigit (u / 16)) (Text.hexDigit (u % 16)) = some u ∧
      isHighSurrogate u = false ∧ isLowSurrogate u = false := by decide
  obtain ⟨hu, hhigh, hlow⟩ := hunit _ hc
  have hof : Char.ofNat c.toNat = c := Char.ofNat_toNat c
  rw [string?.eq_def]
  simp only [hu]
  split
  · next h => cases h
  · next h =>
    cases h
    simp [hhigh, hlow, hof]
  · next h _ =>
    cases h
    simp [hhigh, hlow, hof]

lemma string?_escape (met : List Char) (c : Char) (rest : List Char) :
    string? met (escape c ++ rest) = string? (c :: met) rest := by
  unfold escape
  split
  case h_8 hquote hslash _ _ _ _ _ =>
    split
    · next hc => exact string?_control hc met rest
    · next hc => exact string?_plain hquote hslash (Nat.le_of_not_lt hc) met rest
  all_goals simp [string?, escaped?]

lemma string?_flatMap_escape (met cs rest : List Char) :
    string? met (cs.flatMap escape ++ '\x22' :: rest) = some (met.reverse ++ cs, rest) := by
  induction cs generalizing met with
  | nil => simp [string?]
  | cons c cs ih =>
    rw [List.flatMap_cons, List.append_assoc, string?_escape, ih]
    simp

lemma lex_quote (s : String) (rest : List Char) : lex ((quote s).toList ++ rest) = string s :: lex rest := by
  have htext : (quote s).toList ++ rest = '\x22' :: (s.toList.flatMap escape ++ '\x22' :: rest) := by
    simp [quote]
  have hnext : next? ('\x22' :: (s.toList.flatMap escape ++ '\x22' :: rest)) = some (string s, rest) := by
    simp [next?, string?_flatMap_escape]
  rw [htext, lex_some rfl hnext]

lemma next?_numeral {c : Char} (hc : c = '-' ∨ c.isDigit) (cs : List Char) :
    next? (c :: cs) = (number? (c :: cs)).map fun r => (number r.1, r.2) := by
  rw [next?.eq_def]
  split <;> simp_all

lemma lex_number (n : Number) {r : List Char} (hr : Ends r) :
    lex (n.text.toList ++ r) = n.readBack?.elim [invalid] (number · :: lex r) := by
  obtain ⟨c, cs, hcs, hc⟩ := (isSigned_text n).head
  have hspace : isSpace c = false := by
    rcases hc with rfl | hc
    · rfl
    · simp only [isSpace, Bool.or_eq_false_iff, beq_eq_false_iff_ne]
      refine ⟨⟨⟨?_, ?_⟩, ?_⟩, ?_⟩ <;> rintro rfl <;> exact absurd hc (by decide)
  have hread := number?_text_append n hr
  have hnext := next?_numeral hc (cs ++ r)
  rw [← List.cons_append, ← hcs, hread, Option.map_map] at hnext
  rw [hcs, List.cons_append] at hnext ⊢
  cases hn : n.readBack? with
  | none => exact lex_none hspace (by rw [hnext, hn]; rfl)
  | some m => exact lex_some hspace (by rw [hnext, hn]; rfl)

@[simp] lemma lex_openArray (cs : List Char) : lex ('[' :: cs) = openArray :: lex cs := lex_some rfl rfl

@[simp] lemma lex_closeArray (cs : List Char) : lex (']' :: cs) = closeArray :: lex cs := lex_some rfl rfl

@[simp] lemma lex_openObject (cs : List Char) : lex ('\x7b' :: cs) = openObject :: lex cs := lex_some rfl rfl

@[simp] lemma lex_closeObject (cs : List Char) : lex ('\x7d' :: cs) = closeObject :: lex cs := lex_some rfl rfl

@[simp] lemma lex_colon (cs : List Char) : lex (':' :: cs) = colon :: lex cs := lex_some rfl rfl

@[simp] lemma lex_comma (cs : List Char) : lex (',' :: cs) = comma :: lex cs := lex_some rfl rfl

@[simp] lemma lex_null (cs : List Char) : lex ('n' :: 'u' :: 'l' :: 'l' :: cs) = null :: lex cs :=
  lex_some rfl rfl

@[simp] lemma lex_true (cs : List Char) : lex ('t' :: 'r' :: 'u' :: 'e' :: cs) = bool true :: lex cs :=
  lex_some rfl rfl

@[simp] lemma lex_false (cs : List Char) : lex ('f' :: 'a' :: 'l' :: 's' :: 'e' :: cs) = bool false :: lex cs :=
  lex_some rfl rfl

@[simp] lemma lex_blank (cs : List Char) : lex (' ' :: cs) = lex cs := lex_space rfl cs

lemma lex_newline (level : Nat) (cs : List Char) : lex ((newline level).toList ++ cs) = lex cs := by
  have hspaces (n : Nat) : lex (List.replicate n ' ' ++ cs) = lex cs := by
    induction n with
    | zero => rfl
    | succ n ih => rw [List.replicate_succ, List.cons_append, lex_blank, ih]
  simp [newline, lex_space (c := '\n') rfl, hspaces]

end Token

end QueryTree.Json
