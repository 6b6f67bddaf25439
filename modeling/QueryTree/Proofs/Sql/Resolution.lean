import QueryTree.Document.Json
import QueryTree.Proofs.Sql.ColumnTexts
import QueryTree.Proofs.Sql.Node
/-! What the entries of GROUP BY and ORDER BY refer to. All are output names, so those of visible fields name a column
of the SELECT list; a field that rows are grouped by may be hidden, and then its output name need not be one of a
column. -/

namespace QueryTree

lemma Field.chosen_iff {text : Option String} {fallback s : String} :
    Chosen text fallback s ↔ s = nonemptyOr text fallback := by
  constructor
  · intro h
    cases h with
    | text given nonempty => rw [given, nonemptyOr, if_neg (by rwa [String.isEmpty_iff])]
    | fallback missing =>
      cases text with
      | none => rfl
      | some t =>
        obtain rfl := missing t rfl
        rfl
  · rintro rfl
    exact chosen_nonemptyOr text fallback

namespace Document

open Sql
open Sql.Columns (sortText)

/-- An entry for a field that names a column of the SELECT list, or repeats what the field computes if it is hidden. -/
def Resolves (fs : Fields) (e : String × Field) (entry : String) : Prop :=
  entry ∈ fs.outputNames ∨ e.2.isVisible = false ∧ Field.Chosen e.2.expression e.1 entry

lemma outputName_mem_outputNames {fs : Fields} {e : String × Field} (he : e ∈ fs.entries) (hvisible : e.2.isVisible) :
    e.2.outputName e.1 ∈ fs.outputNames :=
  List.mem_map.2 ⟨e, List.mem_filter.2 ⟨he, hvisible⟩, rfl⟩

variable {d : Document}

lemma tokens_eq_lists (h : d.isUnion = false) : d.tokens =
    headTokens (.ofBlock d.block) ++ (d.sourceTokens ++ (optionalClause .where (d.block.filter.map .raw) ++
      (listClause .groupBy (d.fields.grouped.map fun e => .identifier (e.2.outputName e.1)) ++
        (optionalClause .having (d.block.having.map .raw) ++
          (listClause .orderBy (d.fields.sorted.map fun e => .raw (sortText e)) ++
            optionalClause .limit (d.block.limit.map .natural)))))) := by
  have hdimensions : (Shown.ofBlock d.block).dimensions = d.fields.grouped.map fun e => e.2.outputName e.1 :=
    Columns.dimensions_ofFields {} d.fields
  have horder : (Shown.ofBlock d.block).order = d.fields.sorted.map sortText := Columns.order_ofFields {} d.fields
  rw [tokens_eq h, clauseTokens, hdimensions, horder, List.map_map, List.map_map]
  rfl

lemma resolves_outputName_iff {fs : Fields} {e : String × Field} (he : e ∈ fs.entries) :
    Resolves fs e (e.2.outputName e.1) ↔
      e.2.isVisible = true ∨ e.2.outputName e.1 ∈ fs.outputNames ∨ e.2.outputName e.1 = e.2.source e.1 := by
  rw [Resolves, Field.chosen_iff]
  cases hvisible : e.2.isVisible with
  | true => exact iff_of_true (.inl (outputName_mem_outputNames he hvisible)) (.inl rfl)
  | false => simp [Field.source]

/-- Each entry of GROUP BY is the output name of a grouped field, and resolves exactly if the field is visible, or
shares its output name with a column or with what it computes; each entry of ORDER BY is the output name of a column. -/
theorem entries_resolve_iff (h : d.isUnion = false) :
    d.tokens = headTokens (.ofBlock d.block) ++ (d.sourceTokens ++ (optionalClause .where (d.block.filter.map .raw) ++
      (listClause .groupBy (d.fields.grouped.map fun e => .identifier (e.2.outputName e.1)) ++
        (optionalClause .having (d.block.having.map .raw) ++
          (listClause .orderBy (d.fields.sorted.map fun e => .raw (sortText e)) ++
            optionalClause .limit (d.block.limit.map .natural)))))) ∧
    (∀ e ∈ d.fields.grouped, Field.Chosen e.2.asName e.1 (e.2.outputName e.1) ∧
      (Resolves d.fields e (e.2.outputName e.1) ↔ e.2.isVisible = true ∨ e.2.outputName e.1 ∈ d.fields.outputNames ∨
        e.2.outputName e.1 = e.2.source e.1) ∧
      ((∀ s, e.2.asName = some s → s = "") → (∀ s, e.2.expression = some s → s = "") →
        Resolves d.fields e (e.2.outputName e.1))) ∧
    ∀ e ∈ d.fields.sorted, e.2.outputName e.1 ∈ d.fields.outputNames ∧
      (sortText e = e.2.outputName e.1 ∨ sortText e = e.2.outputName e.1 ++ " DESC") := by
  refine ⟨tokens_eq_lists h, fun e he => ?_, fun e he => ?_⟩
  · have hentry : e ∈ d.fields.entries := (List.mem_filter.1 he).1
    refine ⟨Field.chosen_nonemptyOr .., resolves_outputName_iff hentry, fun hname hexpression => ?_⟩
    have hkey : e.2.outputName e.1 = e.1 := (Field.chosen_iff.1 (.fallback hname)).symm
    have hsource : e.2.source e.1 = e.1 := (Field.chosen_iff.1 (.fallback hexpression)).symm
    exact (resolves_outputName_iff hentry).2 (.inr (.inr (hkey.trans hsource.symm)))
  · obtain ⟨hentry, hvisible⟩ := List.mem_filter.1 (List.mem_filter.1 he).1
    refine ⟨outputName_mem_outputNames hentry hvisible, ?_⟩
    rw [sortText]
    split
    · exact .inr rfl
    · exact .inl rfl

def byArea : Json :=
  .object
    [("fields", .object
      [("year", .object [("type", .string "dim"), ("group_by", .string "group"), ("select", .number (.natural 0))]),
        ("region", .object
          [("type", .string "dim"), ("as", .string "area"), ("group_by", .string "group"), ("order_by", .string "asc")]),
        ("amount", .object [("type", .string "num"), ("group_by", .string "sum"), ("order_by", .string "desc")])]),
      ("table", .string "sales")]

theorem entries_resolve_byArea : ∃ d, ofJson byArea = .ok d ∧ d.isUnion = false ∧
    (∀ e ∈ d.fields.grouped, Resolves d.fields e (e.2.outputName e.1)) ∧ d.sql =
      "SELECT region as area, SUM(amount) as amount FROM sales GROUP BY year, area ORDER BY area, amount DESC" := by
  let fields := Fields.ofList
    [("year", { type := .dimension, groupBy := some .group, visibility := .hidden }),
      ("region", { type := .dimension, asName := some "area", groupBy := some .group, orderBy := some .ascending }),
      ("amount", { type := .numeric, groupBy := some (.aggregate .sum), orderBy := some .descending })]
  have hread : ofJson byArea = .ok (table { fields } { table := "sales" }) := by decide +kernel
  obtain ⟨-, hgrouped, -⟩ := entries_resolve_iff (d := table { fields } { table := "sales" }) rfl
  refine ⟨_, hread, rfl, fun e he => (hgrouped e he).2.1.2 ?_, by decide +kernel⟩
  revert e
  decide +kernel

def byHiddenArea : Json :=
  .object
    [("fields", .object
      [("region", .object
          [("type", .string "dim"), ("as", .string "area"), ("group_by", .string "group"),
            ("select", .number (.natural 0))]),
        ("amount", .object [("type", .string "num"), ("group_by", .string "sum")])]),
      ("table", .string "sales")]

theorem entry_unresolved_byHiddenArea : ∃ d, ofJson byHiddenArea = .ok d ∧ d.isUnion = false ∧
    d.sql = "SELECT SUM(amount) as amount FROM sales GROUP BY area" ∧
    ∃ e ∈ d.fields.grouped, e.2.outputName e.1 = "area" ∧ ¬ Resolves d.fields e "area" := by
  let region : Field := { type := .dimension, asName := some "area", groupBy := some .group, visibility := .hidden }
  let fields := Fields.ofList [("region", region), ("amount", { type := .numeric, groupBy := some (.aggregate .sum) })]
  have hread : ofJson byHiddenArea = .ok (table { fields } { table := "sales" }) := by decide +kernel
  have hentry : ("region", region) ∈ fields.entries := by decide +kernel
  refine ⟨_, hread, rfl, by decide +kernel, ("region", region), by decide +kernel, rfl, ?_⟩
  have hresolves := resolves_outputName_iff hentry
  have hname : region.outputName "region" = "area" := rfl
  rw [hname] at hresolves
  exact fun h => absurd (hresolves.1 h) (by decide +kernel)

end Document

end QueryTree
