import QueryTree.Entries
import QueryTree.Text.Blank
/-!
Comma-separated text. Lines end with LF, CR or both; empty lines are no records. A cell is quoted only if it
starts with a quote; a quote inside is doubled, text after the closing quote belongs to the cell, and an
open quote runs to the end. Records are split as bytes, and each cell is read as text of its own, without its
surrounding blanks.
-/

namespace QueryTree.Csv

def comma : UInt8 :=
  0x2C

def quote : UInt8 :=
  0x22

def isLineEnd (b : UInt8) : Bool :=
  b == 0x0A || b == 0x0D

inductive Place where
  | recordStart
  | cellStart
  | plain
  | quoted
  | afterQuote
deriving DecidableEq

abbrev Cell := List UInt8

def recordsFrom (place : Place) (met : Cell) (cells : List Cell) : List UInt8 → List (List Cell)
  | [] => if place = .recordStart then [] else [(met.reverse :: cells).reverse]
  | b :: bs =>
    if place = .quoted then
      if b = quote then recordsFrom .afterQuote met cells bs else recordsFrom .quoted (b :: met) cells bs
    else if isLineEnd b then
      if place = .recordStart then recordsFrom .recordStart [] [] bs
      else (met.reverse :: cells).reverse :: recordsFrom .recordStart [] [] bs
    else if b = comma then recordsFrom .cellStart [] (met.reverse :: cells) bs
    else if b = quote then
      match place with
      | .recordStart | .cellStart => recordsFrom .quoted met cells bs
      | .afterQuote => recordsFrom .quoted (b :: met) cells bs
      | _ => recordsFrom .plain (b :: met) cells bs
    else recordsFrom .plain (b :: met) cells bs

def withoutMark : List UInt8 → List UInt8
  | 0xEF :: 0xBB :: 0xBF :: bs => bs
  | bs => bs

def records (bytes : ByteArray) : List (List Cell) :=
  recordsFrom .recordStart [] [] (withoutMark bytes.data.toList)

def Cell.text? (cell : Cell) : Option String :=
  (String.fromUTF8? ⟨⟨cell⟩⟩).map Text.trim

def texts? (record : List Cell) : Option (List String) :=
  record.mapM Cell.text?

inductive Error where
  | unequalRecords
  | notText
  | repeatedColumn (name : String)
deriving DecidableEq

def Error.message : Error → String
  | unequalRecords => "records of different lengths"
  | notText => "not valid UTF-8"
  | repeatedColumn name => "column " ++ name ++ " occurs twice"

/-- The rows under a header line, each as its cells by column name. All records have one cell per column, and
none of the `known` columns may occur twice. A header that is no text names nothing: the cells of a row then
belong to the `known` columns in order. -/
def table (known : List String) (bytes : ByteArray) : Except Error (List (Entries String)) :=
  match records bytes with
  | [] => .ok []
  | header :: rows =>
    if rows.any fun row => row.length ≠ header.length then .error .unequalRecords
    else
      match rows.mapM texts?, texts? header with
      | none, _ => .error .notText
      | some rows, none => .ok (rows.map fun row => known.zip row)
      | some [], some _ => .ok []
      | some rows, some names =>
        match known.find? fun name => 1 < names.count name with
        | some name => .error (.repeatedColumn name)
        | none => .ok (rows.map fun row => names.zip row)

end QueryTree.Csv
