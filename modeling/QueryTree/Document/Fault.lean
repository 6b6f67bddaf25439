import QueryTree.Field.Json
/-!
What can be wrong with a stored document, and how it is told.
-/

namespace QueryTree

inductive Fault where
  | missingFields (path : String)
  | missingSource (path : String)
  | missingSubquery (path key : String)
  | notAnObject (path : String)
  | unknownAttribute (field attr : String)
  | missingType (field : String)
  | invalidType (field value : String)
  | invalidAggregation (field value : String)
  | aggregationTypeMismatch (field aggregation : String)
  | invalidOrder (field value : String)
  | invalidVisibility (field value : String)
  | invalidAttributeValue (field attr : String)
  | invalidDistinct (value : String)
  | invalidLimit (value : String)
  | invalidClause (clause value : String)
  | invalidJoin (path reason : String)
  | invalidUnion (path reason : String)
  /-- A document that passed every check and still has no meaning. -/
  | malformed (path reason : String)
deriving DecidableEq

namespace Fault

def quoted (s : String) : String :=
  "'" ++ s ++ "'"

def aboutField (field rest : String) : String :=
  "Field " ++ quoted field ++ " " ++ rest

def message : Fault → String
  | missingFields path => "Query " ++ quoted path ++ " has no fields"
  | missingSource path => "Query " ++ quoted path ++ " has no table, join, union or subquery to select from"
  | missingSubquery path key => "Query " ++ quoted path ++ " references missing subquery " ++ quoted key
  | notAnObject path => "Expected an object at " ++ quoted path
  | unknownAttribute field attr =>
    aboutField field ("has unknown attribute " ++ quoted attr ++ " (allowed: "
      ++ ", ".intercalate Attribute.listing ++ ")")
  | missingType field => aboutField field "has no type"
  | invalidType field value =>
    aboutField field ("has invalid type " ++ quoted value ++ " (expected 'dim' or 'num')")
  | invalidAggregation field value =>
    aboutField field ("has invalid group_by " ++ quoted value ++ " (expected group, sum, count, min, max or avg)")
  | aggregationTypeMismatch field aggregation =>
    aboutField field ("is not numeric and cannot be aggregated with " ++ quoted aggregation)
  | invalidOrder field value =>
    aboutField field ("has invalid order_by " ++ quoted value ++ " (expected ASC or DESC)")
  | invalidVisibility field value =>
    aboutField field ("has invalid select " ++ quoted value ++ " (expected empty or 0)")
  | invalidAttributeValue field attr =>
    aboutField field ("attribute " ++ quoted attr ++ " must be a string")
  | invalidDistinct value => "Invalid distinct " ++ quoted value ++ " (expected empty or 1)"
  | invalidLimit value => "Invalid limit " ++ quoted value ++ " (expected a non-negative integer)"
  | invalidClause clause value => "Invalid " ++ clause ++ " " ++ quoted value ++ " (expected a string)"
  | invalidJoin path reason => "Invalid join in " ++ quoted path ++ ": " ++ reason
  | invalidUnion path reason => "Invalid union in " ++ quoted path ++ ": " ++ reason
  | malformed path reason => "Malformed query " ++ quoted path ++ ": " ++ reason

end Fault

def checkAggregable (field : String) (type : FieldType) (a : Aggregation) : Except Fault Unit :=
  match type with
  | .numeric => .ok ()
  | .dimension => .error (.aggregationTypeMismatch field a.name)

def checkAllAggregable (a : Aggregation) : List (String × FieldType) → Except Fault Unit
  | [] => .ok ()
  | (field, type) :: rest =>
    match checkAggregable field type a with
    | .ok () => checkAllAggregable a rest
    | .error e => .error e

end QueryTree
