import Mathlib.Data.List.DropRight
import Mathlib.Tactic.Lemma
import QueryTree.Proofs.Text.Words
/-! Padding. Trimming a text leaves what stands between the blanks around it, and so its words. Texts that differ in
these blanks alone are the same when trimmed. -/

namespace QueryTree.Text

lemma trimChars_eq_rdropWhile (cs : List Char) : trimChars cs = (cs.dropWhile isBlank).rdropWhile isBlank := rfl

lemma dropWhile_trimChars (cs : List Char) : (trimChars cs).dropWhile isBlank = trimChars cs := by
  rw [List.dropWhile_eq_self_iff]
  intro hpos
  have hstart : trimChars cs <+: cs.dropWhile isBlank := List.rdropWhile_prefix isBlank _
  rw [hstart.getElem hpos]
  exact List.dropWhile_get_zero_not isBlank cs (Nat.lt_of_lt_of_le hpos hstart.length_le)

lemma trimChars_trimChars (cs : List Char) : trimChars (trimChars cs) = trimChars cs := by
  rw [trimChars_eq_rdropWhile (trimChars cs), dropWhile_trimChars]
  exact List.rdropWhile_idempotent isBlank _

lemma not_blank_head?_dropWhile (cs : List Char) : ∀ c ∈ (cs.dropWhile isBlank).head?, isBlank c = false := by
  intro c hc
  have h := List.head?_dropWhile_not isBlank cs
  rwa [Option.mem_def.1 hc] at h

lemma not_blank_head?_trimChars (cs : List Char) : ∀ c ∈ (trimChars cs).head?, isBlank c = false := by
  rw [← dropWhile_trimChars]
  exact not_blank_head?_dropWhile _

lemma not_blank_getLast?_trimChars (cs : List Char) : ∀ c ∈ (trimChars cs).getLast?, isBlank c = false := by
  rw [trimChars, List.getLast?_reverse]
  exact not_blank_head?_dropWhile _

lemma eq_nil_of_blanks {cs : List Char} (h : ∀ c ∈ cs, isBlank c = true)
    (hend : ∀ c ∈ cs.getLast?, isBlank c = false) : cs = [] := by
  by_contra hne
  have hblank : isBlank (cs.getLast hne) = true := h _ (List.getLast_mem hne)
  simp [hend _ (List.getLast?_eq_some_getLast hne)] at hblank

lemma not_blank_getLast?_of_append {cs rest : List Char} (h : ∀ c ∈ (cs ++ rest).getLast?, isBlank c = false) :
    ∀ c ∈ rest.getLast?, isBlank c = false :=
  fun c hc => h c (List.mem_getLast?_append_of_mem_getLast? hc)

lemma trim_trim (s : String) : trim (trim s) = trim s := by
  rw [trim, trim, String.toList_ofList, trimChars_trimChars]

lemma trim_of_isBlankText {s : String} (h : isBlankText s) : trim s = "" := by
  have hdrop : s.toList.dropWhile isBlank = [] := List.dropWhile_eq_nil_iff.2 (List.all_eq_true.1 h)
  rw [trim, trimChars, hdrop]
  rfl

lemma isBlankText_of_trim {s : String} (h : trim s = "") : isBlankText s := by
  let cs := s.toList.dropWhile isBlank
  have hblank : ∀ c ∈ cs, isBlank c = true := List.rdropWhile_eq_nil_iff.1 (String.ofList_injective h)
  -- what is left of the start would begin with a character that is no blank
  have hnil : cs = [] := by
    by_contra hne
    have hpos := List.length_pos_iff.2 hne
    exact List.dropWhile_get_zero_not isBlank s.toList hpos (hblank _ (List.get_mem ..))
  exact List.all_eq_true.2 (List.dropWhile_eq_nil_iff.1 hnil)

inductive Padded (core : List Char) : List Char → Prop
  | padded {before after : List Char} (blankBefore : ∀ c ∈ before, isBlank c = true)
      (blankAfter : ∀ c ∈ after, isBlank c = true) : Padded core (before ++ (core ++ after))

lemma rdropWhile_append_blanks (cs : List Char) {after : List Char} (h : ∀ c ∈ after, isBlank c = true) :
    (cs ++ after).rdropWhile isBlank = cs.rdropWhile isBlank := by
  have hreverse : ∀ c ∈ after.reverse, isBlank c = true := fun c hc => h c (List.mem_reverse.1 hc)
  rw [List.rdropWhile, List.reverse_append, List.dropWhile_append_of_pos hreverse, List.rdropWhile]

lemma Padded.trimChars_eq {core cs : List Char} (h : Padded core cs) : trimChars cs = trimChars core := by
  obtain ⟨hbefore, hafter⟩ := h
  rw [trimChars_eq_rdropWhile, trimChars_eq_rdropWhile, List.dropWhile_append_of_pos hbefore, List.dropWhile_append]
  split
  · next hcore =>
    rw [List.isEmpty_iff.1 hcore, List.dropWhile_eq_nil_iff.2 hafter]
  · rw [rdropWhile_append_blanks _ hafter]

lemma padded_trimChars (cs : List Char) : Padded (trimChars cs) cs := by
  have hsplit : cs = cs.takeWhile isBlank ++ (trimChars cs ++ (cs.dropWhile isBlank).rtakeWhile isBlank) := by
    rw [trimChars_eq_rdropWhile, List.rdropWhile_append_rtakeWhile, List.takeWhile_append_dropWhile]
  have hpadded : Padded (trimChars cs)
      (cs.takeWhile isBlank ++ (trimChars cs ++ (cs.dropWhile isBlank).rtakeWhile isBlank)) :=
    .padded (fun c hc => List.mem_takeWhile_imp hc) (fun c hc => List.mem_rtakeWhile_imp hc)
  rwa [← hsplit] at hpadded

lemma Padded.wordsOf_eq {core cs : List Char} (h : Padded core cs) : wordsOf cs = wordsOf core := by
  obtain ⟨hbefore, hafter⟩ := h
  have hcore : SpacedOut (wordsOf core) core := spacedOut_iff.2 rfl
  rw [wordsOf_blanks_append hbefore, (hcore.append_blanks hafter).wordsOf_eq]

lemma filter_of_blank {cs : List Char} (h : ∀ c ∈ cs, isBlank c = true) : cs.filter (!isBlank ·) = [] := by
  rw [List.filter_eq_nil_iff]
  intro c hc
  simp [h c hc]

lemma Padded.filter_eq {core cs : List Char} (h : Padded core cs) :
    cs.filter (!isBlank ·) = core.filter (!isBlank ·) := by
  obtain ⟨hbefore, hafter⟩ := h
  rw [List.filter_append, List.filter_append, filter_of_blank hbefore, filter_of_blank hafter, List.append_nil,
    List.nil_append]

def SameInside (s t : String) : Prop :=
  ∃ core, Padded core s.toList ∧ Padded core t.toList

lemma sameInside_iff {s t : String} : SameInside s t ↔ trim s = trim t := by
  constructor
  · rintro ⟨core, hs, ht⟩
    rw [trim, trim, hs.trimChars_eq, ht.trimChars_eq]
  · intro h
    refine ⟨trimChars s.toList, padded_trimChars _, ?_⟩
    rw [String.ofList_injective h]
    exact padded_trimChars _

end QueryTree.Text
