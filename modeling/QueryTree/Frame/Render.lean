import QueryTree.Frame.Basic
import QueryTree.Sql.Format
import QueryTree.Sql.Render
import QueryTree.Sql.Statement
/-!
Rendering frames: the SQL of the document laid out by the settings, the column texts of its root, and the
statements that store its rows.
-/

namespace QueryTree.Frame

def rootColumns (f : Frame) : Option Sql.Columns :=
  f.document.map fun d => .ofFields f.settings.types d.fields

section

variable [Sql.Formatter]

def sqlText (f : Frame) : String :=
  match f.document with
  | some d => Sql.layout f.settings.layout d.sql
  | none => ""

def render (f : Frame) : Frame :=
  { f with rendered := f.sqlText, columns := f.rootColumns }

def createTableSql (f : Frame) (table : String) (schema : Option String) : Except Error String :=
  match f.render.columns with
  | some c => .ok ((Sql.CreateTable.ofColumns table c).withSchema (schema.getD "")).sql
  | none => .error (.emptyFrame .createTable)

def insertIntoSql (f : Frame) (table : String) (schema : Option String) : Except Error String :=
  match f.render.columns with
  | some c =>
    let into := Sql.Insert.withSchema { table } (schema.getD "")
    .ok ((into.withColumns c.aliases).withQuery f.render.rendered).sql
  | none => .error (.emptyFrame .insertInto)

end

end QueryTree.Frame
