import Mathlib.Data.List.Forall2
import Mathlib.Tactic.Lemma
import QueryTree.Text.Blank
/-! Words. A text is spaced out from its words: blanks stand around them, and at least one between two of them. Putting
it in lower case puts its words in lower case. -/

namespace QueryTree.Text

structure IsWord (w : List Char) : Prop where
  nonempty : w ≠ []
  noBlanks : ∀ c ∈ w, isBlank c = false

lemma IsWord.head?_append {w : List Char} (h : IsWord w) (rest : List Char) :
    ∀ c ∈ (w ++ rest).head?, isBlank c = false := by
  obtain ⟨c, w, rfl⟩ := List.exists_cons_of_ne_nil h.nonempty
  intro d hd
  cases hd
  exact h.noBlanks c List.mem_cons_self

inductive SpacedOut : List (List Char) → List Char → Prop
  | blanks {cs : List Char} (blank : ∀ c ∈ cs, isBlank c = true) : SpacedOut [] cs
  | word {before w rest : List Char} {ws : List (List Char)} (blank : ∀ c ∈ before, isBlank c = true)
      (word : IsWord w) (apart : ∀ c ∈ rest.head?, isBlank c = true) (spaced : SpacedOut ws rest) :
      SpacedOut (w :: ws) (before ++ (w ++ rest))

lemma wordsOf_cons_blank {c : Char} (h : isBlank c = true) (cs : List Char) : wordsOf (c :: cs) = wordsOf cs := by
  rw [wordsOf.eq_def]
  exact if_pos h

lemma wordsOf_blanks_append {before : List Char} (h : ∀ c ∈ before, isBlank c = true) (cs : List Char) :
    wordsOf (before ++ cs) = wordsOf cs := by
  induction before with
  | nil => rfl
  | cons c before ih =>
    obtain ⟨hc, hbefore⟩ := List.forall_mem_cons.1 h
    rw [List.cons_append, wordsOf_cons_blank hc, ih hbefore]

lemma wordsOf_cons_apart {c : Char} (hc : isBlank c = false) {rest : List Char}
    (h : ∀ d ∈ rest.head?, isBlank d = true) : wordsOf (c :: rest) = [c] :: wordsOf rest := by
  rw [wordsOf.eq_def]
  simp only [hc, Bool.false_eq_true, if_false]
  cases rest with
  | nil => rfl
  | cons d rest =>
    have hd : isBlank d = true := h d rfl
    cases wordsOf (d :: rest) with
    | nil => rfl
    | cons w ws => simp [hd]

lemma wordsOf_cons_joined {c d : Char} {w cs : List Char} {ws : List (List Char)} (hc : isBlank c = false)
    (hd : isBlank d = false) (h : wordsOf (d :: cs) = w :: ws) : wordsOf (c :: d :: cs) = (c :: w) :: ws := by
  rw [wordsOf.eq_def]
  simp [hc, hd, h]

lemma wordsOf_word_append {w rest : List Char} (hw : IsWord w) (h : ∀ d ∈ rest.head?, isBlank d = true) :
    wordsOf (w ++ rest) = w :: wordsOf rest := by
  obtain ⟨hne, hblanks⟩ := hw
  induction w with
  | nil => exact absurd rfl hne
  | cons c w ih =>
    obtain ⟨hc, hw⟩ := List.forall_mem_cons.1 hblanks
    cases w with
    | nil => exact wordsOf_cons_apart hc h
    | cons d w => exact wordsOf_cons_joined hc (hw d List.mem_cons_self) (ih (List.cons_ne_nil d w) hw)

lemma SpacedOut.wordsOf_eq {ws : List (List Char)} {cs : List Char} (h : SpacedOut ws cs) : wordsOf cs = ws := by
  induction h with
  | @blanks cs blank =>
    have hcs := wordsOf_blanks_append blank []
    rwa [List.append_nil] at hcs
  | word blank word apart _ ih => rw [wordsOf_blanks_append blank, wordsOf_word_append word apart, ih]

lemma SpacedOut.cons_blank {ws : List (List Char)} {cs : List Char} (h : SpacedOut ws cs) {c : Char}
    (hc : isBlank c = true) : SpacedOut ws (c :: cs) := by
  cases h with
  | blanks blank => exact .blanks (List.forall_mem_cons.2 ⟨hc, blank⟩)
  | word blank word apart spaced => exact .word (List.forall_mem_cons.2 ⟨hc, blank⟩) word apart spaced

lemma SpacedOut.append_blanks {ws : List (List Char)} {cs after : List Char} (h : SpacedOut ws cs)
    (hafter : ∀ c ∈ after, isBlank c = true) : SpacedOut ws (cs ++ after) := by
  induction h with
  | blanks blank => exact .blanks (List.forall_mem_append.2 ⟨blank, hafter⟩)
  | @word before w rest ws blank word apart _ ih =>
    rw [List.append_assoc, List.append_assoc]
    refine .word blank word (fun c hc => ?_) ih
    cases rest with
    | nil => exact hafter c (List.mem_of_mem_head? hc)
    | cons d rest => exact apart c hc

lemma SpacedOut.exists_cons {ws : List (List Char)} {cs : List Char} (h : SpacedOut ws cs) {c : Char}
    (hc : isBlank c = false) : ∃ us, SpacedOut us (c :: cs) := by
  have hcs : ∀ d ∈ [c], isBlank d = false := List.forall_mem_singleton.2 hc
  by_cases happart : ∀ d ∈ cs.head?, isBlank d = true
  · exact ⟨_, .word (List.forall_mem_nil _) ⟨List.cons_ne_nil c [], hcs⟩ happart h⟩
  · cases h with
    | @blanks cs blank => exact absurd (fun d hd => blank d (List.mem_of_mem_head? hd)) happart
    | @word before w rest ws blank word apart spaced =>
      cases before with
      | nil =>
        have hw : IsWord (c :: w) := ⟨List.cons_ne_nil c w, List.forall_mem_cons.2 ⟨hc, word.noBlanks⟩⟩
        exact ⟨_, .word (List.forall_mem_nil _) hw apart spaced⟩
      | cons b before =>
        refine absurd (fun d hd => ?_) happart
        cases hd
        exact blank b List.mem_cons_self

lemma exists_spacedOut (cs : List Char) : ∃ ws, SpacedOut ws cs := by
  induction cs with
  | nil => exact ⟨[], .blanks (List.forall_mem_nil _)⟩
  | cons c cs ih =>
    obtain ⟨ws, hws⟩ := ih
    cases hc : isBlank c with
    | true => exact ⟨ws, hws.cons_blank hc⟩
    | false => exact hws.exists_cons hc

lemma spacedOut_iff {ws : List (List Char)} {cs : List Char} : SpacedOut ws cs ↔ wordsOf cs = ws := by
  constructor
  · exact SpacedOut.wordsOf_eq
  · rintro rfl
    obtain ⟨ws, hws⟩ := exists_spacedOut cs
    rwa [hws.wordsOf_eq]

lemma toList_words (s : String) : (words s).map String.toList = wordsOf s.toList := by
  rw [words, List.map_map]
  simp [Function.comp_def]

lemma isBlank_toLower_ascii : ∀ n < 128, isBlank (Char.ofNat n).toLower = isBlank (Char.ofNat n) := by
  decide

lemma toLower_eq_self {c : Char} (h : 128 ≤ c.toNat) : c.toLower = c := by
  unfold Char.toLower
  split
  · next hc =>
    have : c.toNat ≤ 90 := UInt32.le_iff_toNat_le.1 hc.2
    omega
  · rfl

lemma isBlank_toLower (c : Char) : isBlank c.toLower = isBlank c := by
  by_cases h : c.toNat < 128
  · simpa using isBlank_toLower_ascii c.toNat h
  · rw [toLower_eq_self (by omega)]

lemma forall_mem_map_toLower {cs : List Char} {b : Bool} (h : ∀ c ∈ cs, isBlank c = b) :
    ∀ c ∈ cs.map Char.toLower, isBlank c = b := by
  simpa only [List.forall_mem_map, isBlank_toLower] using h

lemma SpacedOut.map_toLower {ws : List (List Char)} {cs : List Char} (h : SpacedOut ws cs) :
    SpacedOut (ws.map (List.map Char.toLower)) (cs.map Char.toLower) := by
  induction h with
  | blanks blank => exact .blanks (forall_mem_map_toLower blank)
  | @word before w rest ws blank word apart _ ih =>
    have hword : IsWord (w.map Char.toLower) :=
      ⟨by simpa using word.nonempty, forall_mem_map_toLower word.noBlanks⟩
    have hrest : ∀ c ∈ (rest.map Char.toLower).head?, isBlank c = true := by
      simpa [isBlank_toLower] using apart
    rw [List.map_append, List.map_append]
    exact .word (forall_mem_map_toLower blank) hword hrest ih

/-- The same words, with ASCII letters in either case, spaced out in any way. -/
def Respells (s t : String) : Prop :=
  ∃ ws us, SpacedOut ws s.toList ∧ SpacedOut us t.toList ∧
    ws.map (List.map Char.toLower) = us.map (List.map Char.toLower)

lemma words_foldCase_of_spacedOut {ws : List (List Char)} {s : String} (h : SpacedOut ws s.toList) :
    words (foldCase s) = (ws.map (List.map Char.toLower)).map .ofList := by
  rw [words, foldCase, String.toList_ofList, h.map_toLower.wordsOf_eq]

lemma Respells.words_foldCase {s t : String} (h : Respells s t) : words (foldCase s) = words (foldCase t) := by
  obtain ⟨ws, us, hs, ht, hlower⟩ := h
  rw [words_foldCase_of_spacedOut hs, words_foldCase_of_spacedOut ht, hlower]

lemma spacedOut_words (s : String) : SpacedOut ((words s).map String.toList) s.toList := by
  rw [spacedOut_iff, toList_words]

end QueryTree.Text
