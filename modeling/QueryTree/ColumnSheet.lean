import QueryTree.Csv
import QueryTree.Document.Json
import QueryTree.Files
/-!
Column sheets: one row per field of a table document. Cells lose their surrounding blanks, and a blank cell
is an absent attribute. The table is named by the first row.
-/

namespace QueryTree.ColumnSheet

open Json (Members)

structure Row where
  column : String := ""
  asName : String := ""
  type : String := ""
  groupBy : String := ""
  expression : String := ""
  select : String := ""
  customType : String := ""
  schema : String := ""
  table : String := ""
deriving DecidableEq

inductive Error where
  | unreadable (e : Files.Error)
  | notATable (e : Csv.Error)
  | empty
  | missingColumn (row : Nat)
  | invalid (e : Fault)
deriving DecidableEq

def unreadableMessage (reason : String) : String :=
  "Failed to read column file: " ++ reason

def Error.message : Error → String
  | unreadable e => unreadableMessage e.message
  | notATable e => unreadableMessage e.message
  | empty => "Column file has no rows"
  | missingColumn row => "Row " ++ toString row ++ " has no column name"
  | invalid e => e.message

def cell? (s : String) : Option Json :=
  let s := Text.trim s
  if s.isEmpty then none else some (.string s)

def Row.attributes (r : Row) : Members :=
  Entries.present
    [("type", cell? r.type), ("as", cell? r.asName), ("group_by", cell? r.groupBy),
      ("expression", cell? r.expression), ("select", cell? r.select), ("custom_type", cell? r.customType)]

def fieldsFrom (n : Nat) (fields : Members) : List Row → Except Error Members
  | [] => .ok fields
  | r :: rs =>
    let column := Text.trim r.column
    if column.isEmpty then .error (.missingColumn n)
    else fieldsFrom (n + 1) (fields.insert column (.object r.attributes)) rs

def fields (rows : List Row) : Except Error Members :=
  fieldsFrom 1 [] rows

def blockMembers (first : Row) (fields : Members) : Members :=
  [("fields", .object fields), ("table", .string (Text.trim first.table))]
    ++ Entries.present [("schema", cell? first.schema)]

def document (rows : List Row) : Except Error Document :=
  match rows with
  | [] => .error .empty
  | first :: _ => do
    let fields ← fields rows
    (Document.ofJson (.object [("select", .object (blockMembers first fields))])).mapError .invalid

def columnNames : List String :=
  ["column", "column_as", "column_type", "group_by", "expression", "select", "custom_type", "schema", "table"]

def rowOfCells (cells : Entries String) : Row :=
  let cell name := (cells.get? name).getD ""
  { column := cell "column"
    asName := cell "column_as"
    type := cell "column_type"
    groupBy := cell "group_by"
    expression := cell "expression"
    select := cell "select"
    customType := cell "custom_type"
    schema := cell "schema"
    table := cell "table" }

def documentOfBytes (bytes : ByteArray) : Except Error Document := do
  let rows ← (Csv.table columnNames bytes).mapError .notATable
  document (rows.map rowOfCells)

def documentOfFile (fs : Files) (path : String) : Except Error Document :=
  match fs.readBytes path with
  | .ok bytes => documentOfBytes bytes
  | .error .isDirectory => document []
  | .error e => .error (.unreadable e)

end QueryTree.ColumnSheet
