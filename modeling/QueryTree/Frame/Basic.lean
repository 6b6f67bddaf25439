import QueryTree.Document.Json
import QueryTree.Frame.Notice
import QueryTree.Sql.Columns
/-!
Frames: a query document under construction, with the settings it is rendered by, the text of its last
rendering, and the notices of operations that were skipped.
-/

namespace QueryTree

structure Frame where
  document : Option Document := none
  /-- The fields that the next aggregation applies to. -/
  picked : List String := []
  settings : Settings := {}
  rendered : String := ""
  columns : Option Sql.Columns := none
  notices : List Notice := []

namespace Frame

inductive Error where
  | joinArity (documents types conditions : Nat)
  | unionArity (documents types : Nat)
  | orderArity (keys flags : Nat)
  | unionSourced (op : Operation)
  | emptyFrame (op : Operation)
  | invalid (e : Fault)
deriving DecidableEq

def Error.message : Error → String
  | joinArity documents types conditions =>
    "join arity mismatch: " ++ toString documents ++ " documents, " ++ toString types ++ " join types, "
      ++ toString conditions ++ " conditions (expected documents = join types + 1 = conditions + 1)"
  | unionArity documents types =>
    "union arity mismatch: " ++ toString documents ++ " documents, " ++ toString types
      ++ " union types (expected documents = union types + 1)"
  | orderArity keys flags =>
    "order_by got " ++ toString keys ++ " fields but " ++ toString flags ++ " ascending flags"
  | unionSourced op => op.name ++ " is not allowed on a union query"
  | emptyFrame op => op.name ++ " needs a frame with a query"
  | invalid e => e.message

def empty : Frame :=
  {}

def ofJson (v : Json) : Except Fault Frame :=
  (Document.ofJson v).map fun d => { document := some d }

def ofDocument (d : Document) : Except Fault Frame :=
  ofJson d.toJson

def withSettings (f : Frame) (settings : Settings) : Frame :=
  { f with settings }

def isEmpty (f : Frame) : Bool :=
  f.document.isNone

def toJson (f : Frame) : Json :=
  match f.document with
  | some d => d.toJson
  | none => .object []

def agree (f g : Frame) : Bool :=
  match f.document, g.document with
  | some d, some e => d.agree e
  | none, none => true
  | _, _ => false

def notify (f : Frame) (ns : List Notice) : Frame :=
  { f with notices := f.notices ++ ns }

def takeNotices (f : Frame) : List Notice × Frame :=
  (f.notices, { f with notices := [] })

end Frame

end QueryTree
