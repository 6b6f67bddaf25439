import QueryTree.Field.Fields
/-!
The column texts of one query node, each list in field order.
-/

namespace QueryTree.Sql

structure Columns where
  names : List String := []
  aliases : List String := []
  /-- The output names of the fields grouped on, visible or not. -/
  dimensions : List String := []
  /-- The output names of the aggregated fields, visible or not. -/
  values : List String := []
  order : List String := []
  types : List String := []
deriving DecidableEq

namespace Columns

def append (a b : Columns) : Columns where
  names := a.names ++ b.names
  aliases := a.aliases ++ b.aliases
  dimensions := a.dimensions ++ b.dimensions
  values := a.values ++ b.values
  order := a.order ++ b.order
  types := a.types ++ b.types

def expression (f : Field) (key : String) : String :=
  match f.groupBy with
  | some (.aggregate a) => a.apply (f.source key)
  | _ => f.source key

def selectText (expression name : String) : String :=
  if expression = name then expression else expression ++ " as " ++ name

def orderText (name : String) : SortOrder → String
  | .ascending => name
  | .descending => name ++ " DESC"

def ofField (types : CastTypes) (key : String) (f : Field) : Columns :=
  let name := f.outputName key
  let shown := if f.isVisible then [name] else []
  { names := shown.map fun name => selectText (expression f key) name
    aliases := shown
    dimensions := if f.groupBy = some .group then [name] else []
    values := if f.aggregation?.isSome then [name] else []
    order := shown.flatMap fun name => f.orderBy.toList.map (orderText name)
    types := shown.map fun _ => f.castType types }

def ofEntries (types : CastTypes) : List (String × Field) → Columns
  | [] => {}
  | (key, f) :: rest => (ofField types key f).append (ofEntries types rest)

def ofFields (types : CastTypes) (fs : Fields) : Columns :=
  ofEntries types fs.entries

def isGrouped (c : Columns) : Bool :=
  !c.dimensions.isEmpty

end Columns

end QueryTree.Sql
