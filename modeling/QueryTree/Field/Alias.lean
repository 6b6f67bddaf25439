import QueryTree.Text.Blank
/-!
Column aliases hold no blanks: surrounding ones are dropped and each inner run becomes an underscore.
-/

namespace QueryTree.Alias

def collapseBlanks : List Char → List Char
  | [] => []
  | c :: cs =>
    if Text.isBlank c then
      match cs with
      | d :: _ => if Text.isBlank d then collapseBlanks cs else '_' :: collapseBlanks cs
      | [] => ['_']
    else c :: collapseBlanks cs

def normalize (name : String) : String :=
  .ofList (collapseBlanks (Text.trimChars name.toList))

theorem underscore_not_blank : ¬ Text.isBlank '_' := by
  decide

theorem collapseBlanks_not_blank (cs : List Char) : ∀ c ∈ collapseBlanks cs, ¬ Text.isBlank c := by
  induction cs with
  | nil => simp [collapseBlanks]
  | cons c cs ih =>
    unfold collapseBlanks
    split
    · cases cs with
      | nil =>
        intro d hd
        rw [List.mem_singleton] at hd
        exact hd ▸ underscore_not_blank
      | cons d ds =>
        simp only
        split
        · exact ih
        · exact List.forall_mem_cons.2 ⟨underscore_not_blank, ih⟩
    · exact List.forall_mem_cons.2 ⟨by assumption, ih⟩

end QueryTree.Alias
