import QueryTree.Keyword
/-!
Settings: how rendered SQL is laid out, and the cast types of the two field types.
-/

namespace QueryTree

structure LayoutSettings where
  enabled : Bool := true
  uppercase : Bool := true
  indent : UInt8 := 4
deriving DecidableEq

structure CastTypes where
  dimension : String := "VARCHAR(500)"
  numeric : String := "FLOAT(53)"
deriving DecidableEq

def CastTypes.ofFieldType (types : CastTypes) : FieldType → String
  | .dimension => types.dimension
  | .numeric => types.numeric

structure Settings where
  layout : LayoutSettings := {}
  types : CastTypes := {}
deriving DecidableEq

def Settings.raw : Settings :=
  { layout := { enabled := false } }

end QueryTree
