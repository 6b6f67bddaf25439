import Mathlib.Data.List.Forall2
import Mathlib.Tactic.Lemma
import QueryTree.Sql.Statement
/-! The column texts of fields. What is shown of a visible field stands in one place of all lists, so that a table made
of them has a column for each; groupings and aggregations are listed of hidden fields too. -/

namespace QueryTree

def Fields.outputNames (fs : Fields) : List String :=
  fs.visible.map fun e => e.2.outputName e.1

def Fields.grouped (fs : Fields) : List (String × Field) :=
  fs.entries.filter fun e => decide (e.2.groupBy = some .group)

def Fields.aggregated (fs : Fields) : List (String × Field) :=
  fs.entries.filter fun e =>
    match e.2.groupBy with
    | some (.aggregate _) => true
    | _ => false

def Fields.sorted (fs : Fields) : List (String × Field) :=
  fs.visible.filter fun e => e.2.orderBy.isSome

lemma Fields.sorted_eq_nil {fs : Fields} (h : ∀ e ∈ fs.entries, e.2.orderBy = none) : fs.sorted = [] :=
  List.filter_eq_nil_iff.2 fun e he => by simp [h e (List.mem_filter.1 he).1]

inductive Field.Chosen (text : Option String) (fallback : String) : String → Prop
  | text {s : String} (given : text = some s) (nonempty : s ≠ "") : Chosen text fallback s
  | fallback (missing : ∀ s, text = some s → s = "") : Chosen text fallback fallback

lemma Field.chosen_nonemptyOr (text : Option String) (fallback : String) :
    Chosen text fallback (nonemptyOr text fallback) := by
  cases text with
  | none => exact .fallback nofun
  | some s =>
    by_cases hs : s = ""
    · subst hs
      exact .fallback fun t ht => (Option.some.inj ht).symm
    · rw [nonemptyOr, if_neg (by rwa [String.isEmpty_iff])]
      exact .text rfl hs

namespace Sql.Columns

lemma list_ofEntries {α : Type} {l : Columns → List α} (hnil : l {} = [])
    (happend : ∀ a b, l (a.append b) = l a ++ l b) (types : CastTypes) (es : List (String × Field)) :
    l (ofEntries types es) = es.flatMap fun e => l (ofField types e.1 e.2) := by
  induction es with
  | nil => exact hnil
  | cons e es ih =>
    obtain ⟨key, f⟩ := e
    rw [ofEntries, happend, ih, List.flatMap_cons]

lemma flatMap_ite {α β : Type} (p : α → Bool) (g : α → β) (xs : List α) :
    (xs.flatMap fun x => if p x then [g x] else []) = (xs.filter p).map g := by
  induction xs with
  | nil => rfl
  | cons x xs ih => cases hx : p x <;> simp [hx, ih]

def sortText (e : String × Field) : String :=
  if e.2.orderBy = some .descending then e.2.outputName e.1 ++ " DESC" else e.2.outputName e.1

section

variable (types : CastTypes) (fs : Fields)

lemma names_ofFields : (ofFields types fs).names =
    fs.visible.map fun e => selectText (expression e.2 e.1) (e.2.outputName e.1) := by
  rw [ofFields, list_ofEntries (l := names) rfl fun _ _ => rfl, Fields.visible, ← flatMap_ite]
  congr 1
  funext e
  cases hf : e.2.isVisible <;> simp [ofField, hf]

lemma aliases_ofFields : (ofFields types fs).aliases = fs.outputNames := by
  rw [ofFields, list_ofEntries (l := aliases) rfl fun _ _ => rfl, Fields.outputNames, Fields.visible, ← flatMap_ite]
  rfl

lemma types_ofFields : (ofFields types fs).types = fs.visible.map fun e => e.2.castType types := by
  rw [ofFields, list_ofEntries (l := Columns.types) rfl fun _ _ => rfl, Fields.visible, ← flatMap_ite]
  congr 1
  funext e
  cases hf : e.2.isVisible <;> simp [ofField, hf]

lemma dimensions_ofFields : (ofFields types fs).dimensions = fs.grouped.map fun e => e.2.outputName e.1 := by
  rw [ofFields, list_ofEntries (l := dimensions) rfl fun _ _ => rfl, Fields.grouped, ← flatMap_ite]
  simp only [ofField, decide_eq_true_eq]

lemma values_ofFields : (ofFields types fs).values = fs.aggregated.map fun e => e.2.outputName e.1 := by
  rw [ofFields, list_ofEntries (l := values) rfl fun _ _ => rfl, Fields.aggregated, ← flatMap_ite]
  congr 1
  funext e
  rcases hg : e.2.groupBy with _ | _ | _ <;> simp [ofField, Field.aggregation?, GroupBy.aggregation?, hg]

lemma order_ofFields : (ofFields types fs).order = fs.sorted.map sortText := by
  rw [ofFields, list_ofEntries (l := order) rfl fun _ _ => rfl, Fields.sorted, Fields.visible, List.filter_filter,
    ← flatMap_ite]
  congr 1
  funext e
  rcases ho : e.2.orderBy with _ | _ | _ <;> cases hf : e.2.isVisible <;> simp [ofField, sortText, orderText, ho, hf]

end

inductive Computes (key : String) (f : Field) : String → Prop
  | plain {s : String} (source : Field.Chosen f.expression key s) (plain : ∀ a, f.groupBy ≠ some (.aggregate a)) :
    Computes key f s
  | aggregated {s : String} {a : Aggregation} (source : Field.Chosen f.expression key s)
      (role : f.groupBy = some (.aggregate a)) :
      Computes key f (.ofList (a.name.toList.map Char.toUpper) ++ "(" ++ s ++ ")")

structure Place where
  select : String
  name : String
  type : String

structure Place.Shows (types : CastTypes) (e : String × Field) (p : Place) : Prop where
  select : ∃ s, Computes e.1 e.2 s ∧ p.select = if s = p.name then s else s ++ " as " ++ p.name
  name : Field.Chosen e.2.asName e.1 p.name
  dimension : e.2.type = .dimension → Field.Chosen e.2.customType types.dimension p.type
  numeric : e.2.type = .numeric → Field.Chosen e.2.customType types.numeric p.type

def place (types : CastTypes) (e : String × Field) : Place :=
  ⟨selectText (expression e.2 e.1) (e.2.outputName e.1), e.2.outputName e.1, e.2.castType types⟩

lemma functionName_eq (a : Aggregation) : a.functionName = .ofList (a.name.toList.map Char.toUpper) := by
  cases a <;> rfl

lemma computes_expression (key : String) (f : Field) : Computes key f (expression f key) := by
  have hsource : Field.Chosen f.expression key (f.source key) := Field.chosen_nonemptyOr ..
  rw [expression]
  split
  · next a ha =>
    rw [Aggregation.apply, functionName_eq]
    exact .aggregated hsource ha
  · next hplain => exact .plain hsource hplain

lemma shows_place (types : CastTypes) (e : String × Field) : (place types e).Shows types e where
  select := ⟨_, computes_expression e.1 e.2, rfl⟩
  name := Field.chosen_nonemptyOr ..
  dimension h := by
    rw [place, Field.castType, h]
    exact Field.chosen_nonemptyOr ..
  numeric h := by
    rw [place, Field.castType, h]
    exact Field.chosen_nonemptyOr ..

/-- The lists of names, output names and cast types have one place for each visible field, in field order, and a table
made of them has one column for each. The other lists hold the output names of the grouped and of the aggregated fields,
and those of the visible sorted fields, in field order. -/
theorem columns_aligned (types : CastTypes) (fs : Fields) :
    fs.visible = (fs.entries.filter fun e => decide (e.2.visibility = .visible)) ∧
    (∃ places, List.Forall₂ (fun e p => p.Shows types e) fs.visible places ∧
      (ofFields types fs).names = places.map Place.select ∧ (ofFields types fs).aliases = places.map Place.name ∧
      (ofFields types fs).types = places.map Place.type ∧
      ∀ table, (CreateTable.ofColumns table (ofFields types fs)).columns = places.map fun p => ⟨p.name, p.type⟩) ∧
    (ofFields types fs).names.length = fs.visible.length ∧ (ofFields types fs).aliases.length = fs.visible.length ∧
    (ofFields types fs).types.length = fs.visible.length ∧
    List.Forall₂ (fun e s => Field.Chosen e.2.asName e.1 s) fs.grouped (ofFields types fs).dimensions ∧
    List.Forall₂ (fun e s => Field.Chosen e.2.asName e.1 s) fs.aggregated (ofFields types fs).values ∧
    List.Forall₂ (fun e s => ∃ name, Field.Chosen e.2.asName e.1 name ∧
      s = if e.2.orderBy = some .descending then name ++ " DESC" else name) fs.sorted (ofFields types fs).order := by
  have hnames : (ofFields types fs).names = (fs.visible.map (place types)).map Place.select := by
    rw [names_ofFields, List.map_map]
    rfl
  have haliases : (ofFields types fs).aliases = (fs.visible.map (place types)).map Place.name := by
    rw [aliases_ofFields, List.map_map]
    rfl
  have htypes : (ofFields types fs).types = (fs.visible.map (place types)).map Place.type := by
    rw [types_ofFields, List.map_map]
    rfl
  have hchosen (e : String × Field) : Field.Chosen e.2.asName e.1 (e.2.outputName e.1) := Field.chosen_nonemptyOr ..
  refine ⟨rfl, ⟨fs.visible.map (place types), ?_, hnames, haliases, htypes, fun table => ?_⟩, ?_, ?_, ?_, ?_, ?_, ?_⟩
  · exact List.forall₂_map_right_iff.2 (List.forall₂_same.2 fun e _ => shows_place types e)
  · rw [CreateTable.ofColumns, haliases, htypes, List.zipWith_map, List.zipWith_self]
  · simp [hnames]
  · simp [haliases]
  · simp [htypes]
  · rw [dimensions_ofFields]
    exact List.forall₂_map_right_iff.2 (List.forall₂_same.2 fun e _ => hchosen e)
  · rw [values_ofFields]
    exact List.forall₂_map_right_iff.2 (List.forall₂_same.2 fun e _ => hchosen e)
  · rw [order_ofFields]
    exact List.forall₂_map_right_iff.2 (List.forall₂_same.2 fun e _ => ⟨_, hchosen e, rfl⟩)

end Sql.Columns

end QueryTree
