import QueryTree.Proofs.Frame.Alignment
import QueryTree.Proofs.Frame.OutputColumns
import QueryTree.Proofs.Json.Numbers
/-! The columns of joins. Each is kept under the number of its query and its name there, and shown under its name in
normal form. Without repeated columns a join takes each name once, as it stands in the queries: the columns differ as
long as no two names have the same normal form. -/

namespace QueryTree

open Check (childKey)

namespace Frame

lemma columnKey_childKey_inj {m n : ℕ} {a b : String} :
    columnKey (childKey m) a = columnKey (childKey n) b ↔ m = n ∧ a = b := by
  constructor
  · intro h
    -- the number ends at the point, whatever stands behind it
    have hpoint (name : List Char) : ∀ c ∈ ('.' :: name).head?, c.isDigit = false := by
      rintro c ⟨⟩
      rfl
    have hchars : Nat.toDigits 10 m ++ '.' :: a.toList = Nat.toDigits 10 n ++ '.' :: b.toList := by
      have h := congrArg String.toList h
      simpa [columnKey, childKey, Check.subqueryKey, Nat.toString_eq_ofList_toDigits] using h
    have hdigits : Nat.toDigits 10 m = Nat.toDigits 10 n := by
      rw [← (Json.Token.isDigits_toDigits m).takeWhile (hpoint a.toList), hchars,
        (Json.Token.isDigits_toDigits n).takeWhile (hpoint b.toList)]
    have hnumber : m = n := by
      rw [← Nat.ofDigitChars_ten_toDigits (n := m), hdigits, Nat.ofDigitChars_ten_toDigits]
    subst hnumber
    exact ⟨rfl, (String.append_right_inj _).1 h⟩
  · rintro ⟨rfl, rfl⟩
    rfl

def shownName (query name : String) : String :=
  Field.nonemptyOr (some (Alias.normalize name)) (columnKey query name)

lemma outputName_projected (f : Field) (query name : String) :
    (f.projected name).outputName (columnKey query name) = shownName query name := rfl

lemma shownName_of_ne_empty {name : String} (h : Alias.normalize name ≠ "") (query : String) :
    shownName query name = Alias.normalize name := by
  rw [shownName, Field.nonemptyOr, if_neg (by rwa [String.isEmpty_iff])]

lemma shownName_ne_empty (query name : String) : shownName query name ≠ "" := by
  by_cases h : Alias.normalize name = ""
  · rw [shownName, h]
    intro hkey
    have hchars := congrArg String.toList hkey
    simp [Field.nonemptyOr, columnKey] at hchars
  · rwa [shownName_of_ne_empty h]

/-- A collection without repeated names: a column for each name, under the number of the query that it came from. -/
structure Takes (c : Collected) (taken : List (ℕ × String)) : Prop where
  columns : c.fields.names = taken.map fun t => (columnKey (childKey t.1) t.2, shownName (childKey t.1) t.2)
  names : c.names = (taken.map Prod.snd).reverse
  nodup : (taken.map Prod.snd).Nodup

lemma takes_nil : Takes {} [] :=
  ⟨rfl, rfl, List.nodup_nil⟩

section

variable {c : Collected} {taken : List (ℕ × String)} (h : Takes c taken)

include h

lemma Takes.mem_names {name : String} : name ∈ c.names ↔ name ∈ taken.map Prod.snd := by
  rw [h.names, List.mem_reverse]

lemma Takes.insert {n : ℕ} {name : String} (hname : name ∉ taken.map Prod.snd) (f : Field) :
    Takes ⟨c.fields.insert (columnKey (childKey n) name) (f.projected name), name :: c.names⟩ (taken ++ [(n, name)]) := by
  have hkey : columnKey (childKey n) name ∉ c.fields.keys := by
    rw [← Fields.keys_names, h.columns, Entries.keys, List.map_map]
    intro hm
    obtain ⟨t, ht, hkeys⟩ := List.mem_map.1 hm
    obtain ⟨-, rfl⟩ := columnKey_childKey_inj.1 hkeys
    exact hname (List.mem_map_of_mem ht)
  refine ⟨?_, ?_, ?_⟩
  · have hentries : (c.fields.insert (columnKey (childKey n) name) (f.projected name)).entries =
        c.fields.entries ++ [(columnKey (childKey n) name, f.projected name)] := Entries.insert_of_not_mem hkey _
    rw [Fields.names, hentries, List.map_append, List.map_append, List.map_singleton, List.map_singleton,
      outputName_projected, ← h.columns, Fields.names]
  · rw [List.map_append, List.reverse_append, h.names]
    rfl
  · rw [List.map_append, List.nodup_append]
    refine ⟨h.nodup, List.nodup_singleton name, ?_⟩
    intro other hother new hnew he
    obtain rfl : new = name := List.mem_singleton.1 hnew
    exact hname (he ▸ hother)

lemma Takes.add (n : ℕ) (fields : List (String × Field)) :
    ∃ taken', Takes (c.add true (childKey n) fields) taken' ∧
      ∀ name, name ∈ taken'.map Prod.snd ↔ name ∈ taken.map Prod.snd ∨ name ∈ fields.map fun e => e.2.outputName e.1 := by
  induction fields generalizing c taken with
  | nil => exact ⟨taken, h, fun name => by simp⟩
  | cons e fields ih =>
    obtain ⟨key, f⟩ := e
    simp only [Collected.add, Bool.true_and, List.contains_iff_mem]
    by_cases hname : f.outputName key ∈ c.names
    · rw [if_pos hname]
      obtain ⟨taken', htakes, hmem⟩ := ih h
      refine ⟨taken', htakes, fun name => ?_⟩
      have htaken : name = f.outputName key → name ∈ taken.map Prod.snd := by
        rintro rfl
        exact h.mem_names.1 hname
      rw [hmem, List.map_cons, List.mem_cons, ← or_assoc, or_iff_left_of_imp htaken]
    · rw [if_neg hname]
      rw [h.mem_names] at hname
      obtain ⟨taken', htakes, hmem⟩ := ih (h.insert hname f)
      refine ⟨taken', htakes, fun name => ?_⟩
      rw [hmem, List.map_append, List.mem_append, List.map_singleton, List.mem_singleton, List.map_cons, List.mem_cons,
        or_assoc]

lemma Takes.addAll (n : ℕ) (ds : List Document) :
    ∃ taken', Takes (c.addAll true n ds) taken' ∧
      ∀ name, name ∈ taken'.map Prod.snd ↔ name ∈ taken.map Prod.snd ∨ name ∈ ds.flatMap fun d => d.fields.outputNames := by
  induction ds generalizing c taken n with
  | nil => exact ⟨taken, h, fun name => by simp⟩
  | cons d ds ih =>
    obtain ⟨between, hbetween, hadded⟩ := h.add n d.fields.visible
    obtain ⟨taken', htakes, hmem⟩ := ih hbetween (n + 1)
    refine ⟨taken', htakes, fun name => ?_⟩
    rw [hmem, hadded, List.flatMap_cons, List.mem_append, or_assoc]
    rfl

end

def visibleNames (frames : List Frame) : List String :=
  frames.flatMap fun f => (f.document.map fun d => d.fields.outputNames).getD []

lemma visibleNames_eq {frames : List Frame} {ds : List Document} (h : ds.map some = frames.map Frame.document) :
    visibleNames frames = ds.flatMap fun d => d.fields.outputNames := by
  have hframes : visibleNames frames =
      (frames.map Frame.document).flatMap fun o => (o.map fun d => d.fields.outputNames).getD [] := by
    rw [visibleNames, List.flatMap_map]
  rw [hframes, ← h, List.flatMap_map]
  rfl

lemma exists_takes_join [Sql.Formatter] {frames : List Frame} {types : List JoinType} {on : List String}
    (hfits : JoinFits frames types on) (hall : ∀ f ∈ frames, f.document ≠ none) :
    ∃ (g : Frame) (taken : List (ℕ × String)), join frames types on true = .ok g ∧
      g.render.columns.map (·.aliases) = some (taken.map fun t => shownName (childKey t.1) t.2) ∧
      (taken.map Prod.snd).Nodup ∧ ∀ name, name ∈ taken.map Prod.snd ↔ name ∈ visibleNames frames := by
  obtain ⟨left, rest, hmap, -, hrun⟩ := exists_join hfits hall true
  obtain ⟨taken, htakes, hmem⟩ := takes_nil.addAll 1 (left :: rest)
  have hvisible : (Collected.addAll true 1 {} (left :: rest)).fields.AllVisible :=
    forall_collected_addAll (q := fun e => e.2.isVisible) (fun _ _ _ => rfl) true 1 (List.forall_mem_nil _) _
  have hnames : (Collected.addAll true 1 {} (left :: rest)).fields.outputNames =
      taken.map fun t => shownName (childKey t.1) t.2 := by
    rw [hvisible.outputNames_eq, htakes.columns, List.map_map, Function.comp_def]
  refine ⟨_, taken, hrun, ?_, htakes.nodup, fun name => ?_⟩
  · rw [← hnames]
    exact congrArg some (Sql.Columns.aliases_ofFields ..)
  · rw [hmem, visibleNames_eq hmap, List.map_nil, or_iff_right List.not_mem_nil]

section

variable {taken : List (ℕ × String)}

lemma normalize_mem_shown_iff {name : String} (h : name ∈ taken.map Prod.snd) :
    Alias.normalize name ∈ (taken.map fun t => shownName (childKey t.1) t.2) ↔ Alias.normalize name ≠ "" := by
  constructor
  · intro hmem hempty
    obtain ⟨t, -, ht⟩ := List.mem_map.1 hmem
    exact shownName_ne_empty _ _ (ht.trans hempty)
  · intro hne
    obtain ⟨t, ht, rfl⟩ := List.mem_map.1 h
    exact List.mem_map.2 ⟨t, ht, shownName_of_ne_empty hne _⟩

lemma nodup_shown_iff (hnodup : (taken.map Prod.snd).Nodup)
    (hne : ∀ name ∈ taken.map Prod.snd, Alias.normalize name ≠ "") :
    (taken.map fun t => shownName (childKey t.1) t.2).Nodup ↔
      ∀ a ∈ taken.map Prod.snd, ∀ b ∈ taken.map Prod.snd, Alias.normalize a = Alias.normalize b → a = b := by
  have hshown : (taken.map fun t => shownName (childKey t.1) t.2) = (taken.map Prod.snd).map Alias.normalize := by
    rw [List.map_map]
    exact List.map_congr_left fun t ht => shownName_of_ne_empty (hne t.2 (List.mem_map_of_mem ht)) _
  rw [hshown, List.nodup_map_iff_inj_on hnodup]

end

/-- A join without repeated columns compares the names as they stand in the queries, but shows them in normal form. So
its columns are pairwise distinct and have all names in normal form exactly if no name is blank and no two names have
the same normal form. -/
theorem unique_join_columns [Sql.Formatter] {frames : List Frame} {types : List JoinType} {on : List String}
    (hfits : JoinFits frames types on) (hall : ∀ f ∈ frames, f.document ≠ none) :
    ∃ g names, join frames types on true = .ok g ∧ g.render.columns.map (·.aliases) = some names ∧
      (∀ name ∈ visibleNames frames, Alias.normalize name ∈ names ↔ Alias.normalize name ≠ "") ∧
      ((names.Nodup ∧ ∀ name ∈ visibleNames frames, Alias.normalize name ∈ names) ↔
        (∀ name ∈ visibleNames frames, Alias.normalize name ≠ "") ∧
          ∀ a ∈ visibleNames frames, ∀ b ∈ visibleNames frames, Alias.normalize a = Alias.normalize b → a = b) := by
  obtain ⟨g, taken, hrun, hcolumns, hnodup, hmem⟩ := exists_takes_join hfits hall
  have hshown : ∀ name ∈ visibleNames frames,
      Alias.normalize name ∈ (taken.map fun t => shownName (childKey t.1) t.2) ↔ Alias.normalize name ≠ "" :=
    fun name hname => normalize_mem_shown_iff ((hmem name).2 hname)
  refine ⟨g, _, hrun, hcolumns, hshown, ?_⟩
  rw [forall₂_congr hshown, and_comm]
  refine and_congr_right fun hne => ?_
  rw [nodup_shown_iff hnodup fun name hname => hne name ((hmem name).1 hname)]
  simp only [hmem]

def singleColumn (key table : String) : Frame where
  document := some (.table { fields := .ofList [(key, { type := .dimension })] } { table })

theorem unique_join_columns_spaced :
    ∃ g, join [singleColumn "a b" "t", singleColumn "c" "u", singleColumn "a b" "v"] [.left, .left] ["0", "0"] true =
        .ok g ∧
      ∃ names, g.render.columns.map (·.aliases) = some names ∧ names.Nodup ∧ "a_b" ∈ names ∧ "c" ∈ names := by
  let frames := [singleColumn "a b" "t", singleColumn "c" "u", singleColumn "a b" "v"]
  have hfits : JoinFits frames [.left, .left] ["0", "0"] := ⟨rfl, rfl⟩
  have hall : ∀ f ∈ frames, f.document ≠ none := by decide +kernel
  obtain ⟨g, names, hrun, hcolumns, -, hiff⟩ := unique_join_columns hfits hall
  have hvisible : visibleNames frames = ["a b", "c", "a b"] := by decide +kernel
  rw [hvisible] at hiff
  obtain ⟨hnodup, hmem⟩ := hiff.2 ⟨by decide +kernel, by decide +kernel⟩
  exact ⟨g, hrun, names, hcolumns, hnodup, hmem "a b" (by decide), hmem "c" (by decide)⟩

/-- Two names that differ in the queries may be the same in the join. -/
theorem unique_join_repeats_name :
    JoinFits [singleColumn "a b" "t", singleColumn "a_b" "u"] [.inner] ["0"] ∧
      (∀ f ∈ [singleColumn "a b" "t", singleColumn "a_b" "u"], f.document ≠ none) ∧
      ∃ g names, join [singleColumn "a b" "t", singleColumn "a_b" "u"] [.inner] ["0"] true = .ok g ∧
        g.render.columns.map (·.aliases) = some names ∧ ¬ names.Nodup := by
  refine ⟨⟨rfl, rfl⟩, ?_, _, ["a_b", "a_b"], rfl, ?_, by decide⟩
  · decide +kernel
  · decide +kernel

end Frame

end QueryTree
