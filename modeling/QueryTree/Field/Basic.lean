import QueryTree.Field.Alias
import QueryTree.Settings.Basic
/-!
Fields: the columns of a query, each with a key. A field tells what its column selects, under which
name, and how it takes part in grouping, ordering and casting.
-/

namespace QueryTree

inductive Visibility where
  | visible
  | hidden
deriving DecidableEq

@[ext]
structure Field where
  type : FieldType
  asName : Option String := none
  groupBy : Option GroupBy := none
  expression : Option String := none
  orderBy : Option SortOrder := none
  visibility : Visibility := .visible
  customType : Option String := none
deriving DecidableEq

namespace Field

def ofType (type : FieldType) : Field :=
  { type }

def withAlias (f : Field) (name : String) : Field :=
  { f with asName := some (Alias.normalize name) }

def withGroupBy (f : Field) (g : GroupBy) : Field :=
  { f with groupBy := some g }

def withExpression (f : Field) (expression : String) : Field :=
  { f with expression := some expression }

def withOrderBy (f : Field) (order : SortOrder) : Field :=
  { f with orderBy := some order }

def withCustomType (f : Field) (type : String) : Field :=
  { f with customType := some type }

def hide (f : Field) : Field :=
  { f with visibility := .hidden }

def isVisible (f : Field) : Bool :=
  f.visibility == .visible

def nonemptyOr (text : Option String) (fallback : String) : String :=
  match text with
  | some s => if s.isEmpty then fallback else s
  | none => fallback

def outputName (f : Field) (key : String) : String :=
  nonemptyOr f.asName key

def source (f : Field) (key : String) : String :=
  nonemptyOr f.expression key

def aggregation? (f : Field) : Option Aggregation :=
  f.groupBy.bind GroupBy.aggregation?

def castType (f : Field) (types : CastTypes) : String :=
  nonemptyOr f.customType (types.ofFieldType f.type)

/-- The field as a surrounding query selects it under `name`: only type and cast type carry over. -/
def projected (f : Field) (name : String) : Field :=
  { ofType f.type with customType := f.customType }.withAlias name

end Field

end QueryTree
