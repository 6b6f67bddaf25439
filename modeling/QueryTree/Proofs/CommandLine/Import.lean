import QueryTree.CommandLine.Run
import QueryTree.Proofs.ColumnSheet
import QueryTree.Proofs.QueryFile.Storing
/-! From a column sheet to SQL: what is imported can be stored, loaded and rendered, and the commands agree on what can
be loaded. -/

namespace QueryTree.CommandLine

open QueryFile (Holds)

section

variable {settings : Settings} {fs : Files} {file : String} {label : Option String}

lemma exitCode_validate_iff : (validate fs file label).exitCode = 0 ↔ ∃ d, QueryFile.load fs file label = .ok d := by
  rw [validate]
  cases QueryFile.load fs file label with
  | error e => simp [Outcome.failed]
  | ok d => simp [Outcome.printed]

variable [Sql.Formatter]

lemma exitCode_render_iff {raw verbose : Bool} :
    (render settings fs file label raw verbose).exitCode = 0 ↔ ∃ d, QueryFile.load fs file label = .ok d := by
  rw [render, Frame.load_eq_map]
  cases QueryFile.load fs file label with
  | error e => simp [Except.map, Outcome.failed]
  | ok d => simp [Except.map, Outcome.printed]

lemma exitCode_ddl_iff {table : String} {schema : Option String} :
    (ddl settings fs file table schema label).exitCode = 0 ↔ ∃ d, QueryFile.load fs file label = .ok d := by
  rw [ddl, Frame.load_eq_map]
  cases QueryFile.load fs file label with
  | error e => simp [Except.map, Outcome.failed]
  | ok d => simp [Except.map, Frame.createTableSql, Frame.insertIntoSql, Frame.render, Frame.rootColumns,
      Frame.withSettings, Outcome.printed]

end

section

variable [Sql.Formatter]

lemma load_of_saved_import {rows : List ColumnSheet.Row} {d : Document} {fs fs' : Files} {path : String}
    {label : Option String} (hd : ColumnSheet.document rows = .ok d) (hs : QueryFile.save fs path d label = .ok fs')
    (hothers : ∀ l, label = some l → ∀ labels, Holds fs path labels → Frame.OthersReadBack labels l) :
    QueryFile.load fs' path label = .ok d ∧
      ∃ f, Frame.load fs' path label = .ok f ∧
        ∀ settings, settings.layout.enabled = false → (f.withSettings settings).sqlText = d.sql := by
  have hstored := ColumnSheet.ofJson_toJson_of_document hd
  have hload := Frame.load_of_save hstored (ColumnSheet.plain_of_document hd) hs hothers
  refine ⟨?_, _, hload, fun settings hraw => ?_⟩
  · rw [Frame.load_eq_map, map_eq_ok_iff] at hload
    obtain ⟨e, he, hframe⟩ := hload
    cases hframe
    exact he
  · simp [Frame.sqlText, Frame.withSettings, Sql.layout, hraw]

/-- An imported document can be stored wherever a text can be written, under a label if the file is new or holds labels.
It is then loaded from there, and rendered without layout as its SQL is, if the numbers under the other labels read
back. The commands that load documents succeed on the same files and labels. -/
theorem import_store_load_render :
    (∀ rows d fs path label, ColumnSheet.document rows = .ok d →
      ((∃ fs', QueryFile.save fs path d label = .ok fs') ↔
        fs.Writable path ∧ ∀ l, label = some l → ∃ labels, Holds fs path labels) ∧
      ∀ fs', QueryFile.save fs path d label = .ok fs' →
        (∀ l, label = some l → ∀ labels, Holds fs path labels → Frame.OthersReadBack labels l) →
        QueryFile.load fs' path label = .ok d ∧
          ∃ f, Frame.load fs' path label = .ok f ∧
            ∀ settings, settings.layout.enabled = false → (f.withSettings settings).sqlText = d.sql) ∧
    ∀ settings fs file label raw verbose table schema,
      ((validate fs file label).exitCode = 0 ↔ (render settings fs file label raw verbose).exitCode = 0) ∧
        ((validate fs file label).exitCode = 0 ↔ (ddl settings fs file table schema label).exitCode = 0) := by
  constructor
  · intro rows d fs path label hd
    exact ⟨QueryFile.exists_saveValue_eq_ok_iff, fun _ => load_of_saved_import hd⟩
  · intro settings fs file label raw verbose table schema
    rw [exitCode_validate_iff, exitCode_render_iff, exitCode_ddl_iff]
    exact ⟨Iff.rfl, Iff.rfl⟩

end

def paddedRows : List ColumnSheet.Row :=
  [{ column := " Order ", asName := "Order  Number", type := "dim ", groupBy := "group", schema := "  ",
      table := " Orders" },
    { column := "Value", type := " num", groupBy := "SUM", select := "0", table := "ignored" }]

def paddedDocument : Document :=
  .table
    { fields := .ofList
        [("Order", { type := .dimension, asName := some "Order_Number", groupBy := some .group }),
          ("Value", { type := .numeric, groupBy := some (.aggregate .sum), visibility := .hidden })] }
    { table := "Orders" }

theorem import_store_load_render_paddedRows :
    ColumnSheet.document paddedRows = .ok paddedDocument ∧
      ∃ fs', QueryFile.save Frame.storedUnderA "store.json" paddedDocument (some "q") = .ok fs' ∧
        QueryFile.load fs' "store.json" (some "q") = .ok paddedDocument := by
  have hd : ColumnSheet.document paddedRows = .ok paddedDocument := by decide +kernel
  have himport := import_store_load_render.1 paddedRows paddedDocument Frame.storedUnderA "store.json" (some "q") hd
  have hholds := Frame.holds_storedUnderA
  obtain ⟨fs', hs⟩ := himport.1.2 ⟨⟨["store.json"], rfl, rfl⟩, fun _ _ => ⟨_, hholds⟩⟩
  refine ⟨hd, fs', hs, (himport.2 fs' hs ?_).1⟩
  rintro l - labels hlabels other v - hv
  rw [hlabels.eq hholds] at hv
  obtain ⟨-, rfl⟩ := Prod.mk.inj (List.mem_singleton.1 (Entries.mem_of_get? hv))
  rw [Json.readBack?_of_isIntegral _ Frame.tableDocument.written_toJson.isIntegral]
  rfl

end QueryTree.CommandLine
