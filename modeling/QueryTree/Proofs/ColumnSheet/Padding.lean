import Mathlib.Data.List.Forall2
import QueryTree.ColumnSheet
import QueryTree.Proofs.Text.Padding
/-! Padded column sheets. Of a cell only what stands between its blanks is read, and of the cells that name the table
only those of the first row. -/

namespace QueryTree.ColumnSheet

open Json (Members)
open Text (SameInside sameInside_iff)

structure Row.SameField (r s : Row) : Prop where
  column : SameInside r.column s.column
  asName : SameInside r.asName s.asName
  type : SameInside r.type s.type
  groupBy : SameInside r.groupBy s.groupBy
  expression : SameInside r.expression s.expression
  select : SameInside r.select s.select
  customType : SameInside r.customType s.customType

structure Row.SameSource (r s : Row) : Prop where
  schema : SameInside r.schema s.schema
  table : SameInside r.table s.table

/-- Sheets that are the same but for padding, and for the cells that name the table in rows after the first. -/
inductive SameSheets : List Row → List Row → Prop
  | empty : SameSheets [] []
  | rows {first first' : Row} {rest rest' : List Row} (field : first.SameField first')
      (source : first.SameSource first') (later : List.Forall₂ Row.SameField rest rest') :
      SameSheets (first :: rest) (first' :: rest')

lemma cell?_congr {s t : String} (h : SameInside s t) : cell? s = cell? t := by
  rw [cell?, cell?, sameInside_iff.1 h]

lemma attributes_congr {r s : Row} (h : r.SameField s) : r.attributes = s.attributes := by
  rw [Row.attributes, Row.attributes, cell?_congr h.type, cell?_congr h.asName, cell?_congr h.groupBy,
    cell?_congr h.expression, cell?_congr h.select, cell?_congr h.customType]

lemma fieldsFrom_congr {rows rows' : List Row} (h : List.Forall₂ Row.SameField rows rows') (n : Nat)
    (fields : Members) : fieldsFrom n fields rows = fieldsFrom n fields rows' := by
  induction h generalizing n fields with
  | nil => rfl
  | cons hrow _ ih =>
    rw [fieldsFrom, fieldsFrom, sameInside_iff.1 hrow.column, attributes_congr hrow, ih]

lemma blockMembers_congr {first first' : Row} (h : first.SameSource first') (fields : Members) :
    blockMembers first fields = blockMembers first' fields := by
  rw [blockMembers, blockMembers, sameInside_iff.1 h.table, cell?_congr h.schema]

theorem document_eq_of_sameSheets {rows rows' : List Row} (h : SameSheets rows rows') :
    document rows = document rows' := by
  cases h with
  | empty => rfl
  | rows field source later =>
    have hfields : fields _ = fields _ := fieldsFrom_congr (.cons field later) 1 []
    simp only [document, hfields, blockMembers_congr source]

def paddedSheet : List Row :=
  [{ column := "x ", asName := "Net  Value", type := "\tdim", schema := " ", table := "\u3000t" },
    { column := " x", type := "num", groupBy := "sum\n", table := "u" }]

def plainSheet : List Row :=
  [{ column := "x", asName := "Net  Value", type := "dim", table := "t" },
    { column := "x", type := "num", groupBy := "sum", schema := "s" }]

theorem document_eq_of_sameSheets_paddedSheet :
    SameSheets paddedSheet plainSheet ∧ document paddedSheet = document plainSheet ∧
      document plainSheet = .ok (.table
        { fields := .ofList [("x", { type := .numeric, groupBy := some (.aggregate .sum) })] } { table := "t" }) := by
  have hcells (s t : String) (h : Text.trim s = Text.trim t) : SameInside s t := sameInside_iff.2 h
  have hsame : SameSheets paddedSheet plainSheet := by
    refine .rows ⟨?_, ?_, ?_, ?_, ?_, ?_, ?_⟩ ⟨?_, ?_⟩ (.cons ⟨?_, ?_, ?_, ?_, ?_, ?_, ?_⟩ .nil) <;>
      exact hcells _ _ (by decide)
  exact ⟨hsame, document_eq_of_sameSheets hsame, by decide +kernel⟩

end QueryTree.ColumnSheet
