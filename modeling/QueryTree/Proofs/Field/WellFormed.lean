import QueryTree.Frame.Edit
import QueryTree.Proofs.Field.Canonical
/-! Well-formed fields: those that aggregate numbers only and whose alias has no blanks. All ways to read, make
and change fields keep to them. -/

namespace QueryTree

open Json (Members)
open Grammar

namespace Field

structure WellFormed (f : Field) : Prop where
  aggregates : f.AggregatesNumbers
  unblank : ∀ s, f.asName = some s → ∀ c ∈ s.toList, ¬ Text.isBlank c

lemma wellFormed_ofType (type : FieldType) (customType : Option String) :
    WellFormed { ofType type with customType } :=
  ⟨nofun, nofun⟩

lemma wellFormed_stored {attributes : Members} (h : IsAttributes attributes) : (stored attributes).WellFormed := by
  refine ⟨aggregatesNumbers_stored h, ?_⟩
  intro s hs
  obtain ⟨name, -, hname⟩ := Option.bind_eq_some_iff.1 hs
  unfold nonempty? at hname
  split at hname
  · cases hname
  · cases hname
    exact Alias.normalize_not_blank name

namespace WellFormed

variable {f : Field}

lemma withAlias (h : f.WellFormed) (name : String) : (f.withAlias name).WellFormed := by
  refine ⟨h.aggregates, ?_⟩
  intro s hs
  cases hs
  exact Alias.normalize_not_blank name

lemma withGroupBy (h : f.WellFormed) {g : GroupBy} (hg : ∀ a, g = .aggregate a → f.type = .numeric) :
    (f.withGroupBy g).WellFormed := by
  refine ⟨?_, h.unblank⟩
  intro a ha
  exact hg a (Option.some.inj ha)

lemma withOrderBy (h : f.WellFormed) (order : SortOrder) : (f.withOrderBy order).WellFormed :=
  ⟨h.aggregates, h.unblank⟩

lemma projected (f : Field) (name : String) : (f.projected name).WellFormed :=
  (wellFormed_ofType f.type f.customType).withAlias name

lemma computed {type : FieldType} {groupBy : Option GroupBy} (h : ∀ a, groupBy = some (.aggregate a) → type = .numeric)
    (name expression : String) : (Frame.computed type groupBy name expression).WellFormed :=
  ⟨h, ((wellFormed_ofType type none).withAlias name).unblank⟩

end WellFormed

end Field

namespace Fields

variable {q : String × Field → Prop} {fs : Fields}

lemma forall_insert (h : ∀ e ∈ fs.entries, q e) {key : String} {f : Field} (hf : q (key, f)) :
    ∀ e ∈ (fs.insert key f).entries, q e := by
  intro e he
  rcases Entries.mem_insert he with rfl | he
  · exact hf
  · exact h e he

lemma forall_modify (h : ∀ e ∈ fs.entries, q e) {key : String} {g : Field → Field}
    (hg : ∀ f, q (key, f) → q (key, g f)) : ∀ e ∈ (fs.modify key g).entries, q e := by
  intro e he
  rcases Entries.mem_modify he with he | ⟨f, hf, rfl⟩
  · exact h e he
  · exact hg f (h _ hf)

lemma forall_erase (h : ∀ e ∈ fs.entries, q e) (key : String) : ∀ e ∈ (fs.erase key).entries, q e :=
  fun e he => h e ((Entries.erase_sublist _ key).subset he)

lemma forall_ofList {es : List (String × Field)} (h : ∀ e ∈ es, q e) : ∀ e ∈ (ofList es).entries, q e :=
  fun e he => h e (mem_ofList he)

lemma forall_foldl_insert {α : Type} {as : List α} {key : α → String} {value : α → Field}
    (h : ∀ e ∈ fs.entries, q e) (hq : ∀ a ∈ as, q (key a, value a)) :
    ∀ e ∈ (as.foldl (fun fs a => fs.insert (key a) (value a)) fs).entries, q e := by
  intro e he
  rw [entries_foldl_insert] at he
  rcases Entries.mem_putAll he with he | he
  · exact h e he
  · obtain ⟨a, ha, rfl⟩ := List.mem_map.1 he
    exact hq a ha

end Fields

namespace Frame

variable {q : String × Field → Prop} {fs : Fields}

lemma forall_changeFields {changes : List (String × (Field → Field))} (h : ∀ e ∈ fs.entries, q e)
    (hq : ∀ c ∈ changes, ∀ f, q (c.1, f) → q (c.1, c.2 f)) : ∀ e ∈ (changeFields changes fs).1.entries, q e := by
  change ∀ e ∈ (changes.foldl (fun fs c => fs.modify c.1 c.2) fs).entries, q e
  induction changes generalizing fs with
  | nil => exact h
  | cons c changes ih =>
    obtain ⟨hc, hchanges⟩ := List.forall_mem_cons.1 hq
    exact ih (Fields.forall_modify h hc) hchanges

lemma forall_removeFields (h : ∀ e ∈ fs.entries, q e) (keys : List String) :
    ∀ e ∈ (removeFields keys fs).1.entries, q e := by
  induction keys generalizing fs with
  | nil => exact h
  | cons key keys ih =>
    rw [removeFields]
    split
    · exact ih (Fields.forall_erase h key)
    · exact ih h

lemma forall_selectFields {inner : Fields} (h : ∀ e ∈ fs.entries, q e)
    (hq : ∀ key f, inner.get? key = some f → f.isVisible →
      q (columnKey Check.subqueryKey (f.outputName key), f.projected (f.outputName key))) (keys : List String) :
    ∀ e ∈ (selectFields inner keys fs).1.entries, q e := by
  induction keys generalizing fs with
  | nil => exact h
  | cons key keys ih =>
    rw [selectFields]
    split
    · exact ih h
    · next f hf =>
      split
      · next hvisible => exact ih (Fields.forall_insert h (hq key f hf hvisible))
      · exact ih h

end Frame

end QueryTree
