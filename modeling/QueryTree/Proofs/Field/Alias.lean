import QueryTree.Field.Alias
import QueryTree.Proofs.Text.Numeral
import QueryTree.Proofs.Text.Padding
/-! Normalized aliases. They are the words of a name with one underscore between two of them: all characters that are no
blanks stay in order, and there are no blanks left for which normalizing once more would do anything. -/

namespace QueryTree.Alias

open Text

lemma collapseBlanks_cons_of_not_blank {c : Char} (hc : isBlank c = false) (cs : List Char) :
    collapseBlanks (c :: cs) = c :: collapseBlanks cs := by
  rw [collapseBlanks.eq_def]
  simp only [hc, Bool.false_eq_true, if_false]

lemma collapseBlanks_append_of_not_blank {cs : List Char} (h : ∀ c ∈ cs, isBlank c = false) (rest : List Char) :
    collapseBlanks (cs ++ rest) = cs ++ collapseBlanks rest := by
  induction cs with
  | nil => rfl
  | cons c cs ih =>
    obtain ⟨hc, hcs⟩ := List.forall_mem_cons.1 h
    rw [List.cons_append, collapseBlanks_cons_of_not_blank hc, ih hcs, List.cons_append]

lemma collapseBlanks_of_not_blank {cs : List Char} (h : ∀ c ∈ cs, ¬ isBlank c) : collapseBlanks cs = cs := by
  have hcs : ∀ c ∈ cs, isBlank c = false := by simpa using h
  simpa [collapseBlanks] using collapseBlanks_append_of_not_blank hcs []

lemma collapseBlanks_run_append {run rest : List Char} (hne : run ≠ []) (h : ∀ c ∈ run, isBlank c = true)
    (hrest : ∀ c ∈ rest.head?, isBlank c = false) : collapseBlanks (run ++ rest) = '_' :: collapseBlanks rest := by
  induction run with
  | nil => exact absurd rfl hne
  | cons c run ih =>
    obtain ⟨hc, hrun⟩ := List.forall_mem_cons.1 h
    rw [List.cons_append, collapseBlanks.eq_def]
    cases run with
    | nil =>
      cases rest with
      | nil => simp [hc, collapseBlanks]
      | cons d rest => simp [hc, hrest d rfl]
    | cons d run =>
      have hd : isBlank d = true := hrun d List.mem_cons_self
      simpa [hc, hd] using ih (List.cons_ne_nil d run) hrun

lemma normalize_not_blank (s : String) : ∀ c ∈ (normalize s).toList, ¬ isBlank c := by
  rw [normalize, String.toList_ofList]
  exact collapseBlanks_not_blank _

lemma normalize_of_not_blank {s : String} (h : ∀ c ∈ s.toList, ¬ isBlank c) : normalize s = s := by
  rw [normalize, trimChars_of_not_blank h, collapseBlanks_of_not_blank h, String.ofList_toList]

@[simp] lemma normalize_normalize (s : String) : normalize (normalize s) = normalize s :=
  normalize_of_not_blank (normalize_not_blank s)

lemma collapseBlanks_word_append {w rest : List Char} {ws : List (List Char)} (hw : IsWord w)
    (happart : ∀ c ∈ rest.head?, isBlank c = true) (h : SpacedOut ws rest)
    (hend : ∀ c ∈ rest.getLast?, isBlank c = false) :
    collapseBlanks (w ++ rest) = ['_'].intercalate (w :: ws) := by
  rw [collapseBlanks_append_of_not_blank hw.noBlanks]
  induction h generalizing w with
  | blanks blank =>
    rw [eq_nil_of_blanks blank hend, List.intercalate_singleton]
    exact List.append_nil w
  | @word before u rest us blank word apart _ ih =>
    -- what keeps the next word apart is the run before it
    have hne : before ≠ [] := by
      rintro rfl
      obtain ⟨c, u, rfl⟩ := List.exists_cons_of_ne_nil word.nonempty
      have hc : isBlank c = true := happart c rfl
      simp [word.noBlanks c List.mem_cons_self] at hc
    have hrest := not_blank_getLast?_of_append (not_blank_getLast?_of_append hend)
    rw [collapseBlanks_run_append hne blank (word.head?_append rest), collapseBlanks_append_of_not_blank word.noBlanks,
      ih word apart hrest, List.intercalate_cons_cons, List.append_assoc, List.singleton_append]

lemma collapseBlanks_of_spacedOut {ws : List (List Char)} {cs : List Char} (h : SpacedOut ws cs)
    (hstart : ∀ c ∈ cs.head?, isBlank c = false) (hend : ∀ c ∈ cs.getLast?, isBlank c = false) :
    collapseBlanks cs = ['_'].intercalate ws := by
  cases h with
  | blanks blank => rw [eq_nil_of_blanks blank hend, collapseBlanks, List.intercalate_nil]
  | @word before w rest ws blank word apart spaced =>
    cases before with
    | nil => exact collapseBlanks_word_append word apart spaced (not_blank_getLast?_of_append hend)
    | cons b before =>
      have hb : isBlank b = true := blank b List.mem_cons_self
      simp [hstart b rfl] at hb

lemma collapseBlanks_trimChars (cs : List Char) :
    collapseBlanks (trimChars cs) = ['_'].intercalate (wordsOf cs) := by
  have hspaced : SpacedOut (wordsOf cs) (trimChars cs) := spacedOut_iff.2 (padded_trimChars cs).wordsOf_eq.symm
  exact collapseBlanks_of_spacedOut hspaced (not_blank_head?_trimChars cs) (not_blank_getLast?_trimChars cs)

lemma normalize_eq_intercalate (s : String) : normalize s = "_".intercalate (words s) := by
  rw [← String.toList_inj, String.toList_intercalate, toList_words, normalize, String.toList_ofList]
  exact collapseBlanks_trimChars s.toList

inductive Part
  | character (c : Char)
  | blanks (run : List Char)

namespace Part

def shown : Part → Char
  | character c => c
  | blanks _ => '_'

def character? : Part → Option Char
  | character c => some c
  | blanks _ => none

end Part

inductive Divided : List Part → List Char → Prop
  | nil : Divided [] []
  | character {c : Char} {cs : List Char} {parts : List Part} (unblank : isBlank c = false)
      (divided : Divided parts cs) : Divided (.character c :: parts) (c :: cs)
  | blanks {run rest : List Char} {parts : List Part} (nonempty : run ≠ []) (blank : ∀ c ∈ run, isBlank c = true)
      (apart : ∀ c ∈ rest.head?, isBlank c = false) (divided : Divided parts rest) :
      Divided (.blanks run :: parts) (run ++ rest)

lemma Divided.cons_blank {parts : List Part} {cs : List Char} (h : Divided parts cs) {c : Char}
    (hc : isBlank c = true) : ∃ parts', Divided parts' (c :: cs) := by
  have hrun : ∀ d ∈ [c], isBlank d = true := List.forall_mem_singleton.2 hc
  cases h with
  | nil => exact ⟨_, .blanks (List.cons_ne_nil c []) hrun nofun .nil⟩
  | @character d cs parts unblank divided =>
    have happart : ∀ e ∈ (d :: cs).head?, isBlank e = false := by
      intro e he
      cases he
      exact unblank
    exact ⟨_, .blanks (List.cons_ne_nil c []) hrun happart (.character unblank divided)⟩
  | @blanks run rest parts _ blank apart divided =>
    exact ⟨_, .blanks (List.cons_ne_nil c run) (List.forall_mem_cons.2 ⟨hc, blank⟩) apart divided⟩

lemma exists_divided (cs : List Char) : ∃ parts, Divided parts cs := by
  induction cs with
  | nil => exact ⟨[], .nil⟩
  | cons c cs ih =>
    obtain ⟨parts, hparts⟩ := ih
    cases hc : isBlank c with
    | true => exact hparts.cons_blank hc
    | false => exact ⟨_, .character hc hparts⟩

lemma Divided.collapseBlanks_eq {parts : List Part} {cs : List Char} (h : Divided parts cs) :
    collapseBlanks cs = parts.map Part.shown := by
  induction h with
  | nil => rfl
  | character unblank _ ih => rw [collapseBlanks_cons_of_not_blank unblank, ih, List.map_cons, Part.shown]
  | blanks nonempty blank apart _ ih =>
    rw [collapseBlanks_run_append nonempty blank apart, ih, List.map_cons, Part.shown]

lemma collapseBlanks_ne_nil {cs : List Char} (h : cs ≠ []) : collapseBlanks cs ≠ [] := by
  obtain ⟨parts, hparts⟩ := exists_divided cs
  rw [hparts.collapseBlanks_eq]
  cases hparts with
  | nil => exact absurd rfl h
  | character | blanks => exact List.cons_ne_nil _ _

lemma normalize_ne_empty {s : String} (h : trim s ≠ "") : normalize s ≠ "" := by
  intro hempty
  have hchars : collapseBlanks (trimChars s.toList) = [] := String.ofList_injective hempty
  refine h (congrArg String.ofList ?_)
  by_contra hne
  exact collapseBlanks_ne_nil hne hchars

lemma Divided.filterMap_character? {parts : List Part} {cs : List Char} (h : Divided parts cs) :
    parts.filterMap Part.character? = cs.filter (!isBlank ·) := by
  induction h with
  | nil => rfl
  | @character c cs parts unblank _ ih =>
    rw [List.filterMap_cons_some (show (Part.character c).character? = some c from rfl), ih,
      List.filter_cons_of_pos (by simp [unblank])]
  | @blanks run rest parts _ blank _ _ ih =>
    rw [List.filterMap_cons_none (show (Part.blanks run).character? = none from rfl), ih, List.filter_append,
      filter_of_blank blank, List.nil_append]

/-- The name is blanks around parts. Each part is one character of the alias, and the parts that are no runs of blanks
are all the characters of the name that are no blanks. -/
theorem normalize_joins_words (s : String) :
    SpacedOut ((words s).map String.toList) s.toList ∧ normalize s = "_".intercalate (words s) ∧
      (∀ c ∈ (normalize s).toList, ¬ isBlank c) ∧
      (∃ core parts, Padded core s.toList ∧ Divided parts core ∧ (normalize s).toList = parts.map Part.shown ∧
        parts.filterMap Part.character? = s.toList.filter (!isBlank ·)) ∧
      normalize (normalize s) = normalize s := by
  have hpadded : Padded (trimChars s.toList) s.toList := padded_trimChars s.toList
  obtain ⟨parts, hparts⟩ := exists_divided (trimChars s.toList)
  refine ⟨spacedOut_words s, normalize_eq_intercalate s, normalize_not_blank s, ⟨_, parts, hpadded, hparts, ?_, ?_⟩,
    normalize_normalize s⟩
  · rw [normalize, String.toList_ofList, hparts.collapseBlanks_eq]
  · rw [hparts.filterMap_character?, hpadded.filter_eq]

theorem normalize_joins_words_orderNumber :
    let name := "\u3000 Order\t\u00A0_No \u2028"
    words name = ["Order", "_No"] ∧ normalize name = "Order__No" ∧ (∀ c ∈ "Order__No".toList, ¬ isBlank c) ∧
      normalize "Order__No" = "Order__No" := by
  intro name
  have hwords : words name = ["Order", "_No"] := by decide
  obtain ⟨-, hjoined, hblanks, -, hagain⟩ := normalize_joins_words name
  have hname : normalize name = "Order__No" := hjoined.trans (by rw [hwords]; decide)
  rw [hname] at hblanks hagain
  exact ⟨hwords, hname, hblanks, hagain⟩

end QueryTree.Alias
