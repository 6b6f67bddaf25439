/-!
Notices tell that an operation on a frame was skipped, wholly or for one field.
-/

namespace QueryTree

inductive Operation where
  | rename
  | remove
  | assign
  | groupBy
  | aggregate
  | orderBy
  | distinct
  | limit
  | filter
  | having
  | select
  | join
  | union
  | createTable
  | insertInto
deriving DecidableEq

def Operation.name : Operation → String
  | rename => "rename"
  | remove => "remove"
  | assign => "assign"
  | groupBy => "group_by"
  | aggregate => "agg"
  | orderBy => "order_by"
  | distinct => "distinct"
  | limit => "limit"
  | filter => "where"
  | having => "having"
  | select => "select"
  | join => "join"
  | union => "union"
  | createTable => "create_table"
  | insertInto => "insert_into"

inductive Notice where
  | unionSourced (op : Operation)
  | unknownField (op : Operation) (field : String)
  | hiddenField (op : Operation) (field : String)
  | emptyFrame (op : Operation)
deriving DecidableEq

namespace Notice

def operation : Notice → Operation
  | unionSourced op | unknownField op _ | hiddenField op _ | emptyFrame op => op

def reason : Notice → String
  | unionSourced _ => "not supported on a union query"
  | unknownField _ field => "field '" ++ field ++ "' not found"
  | hiddenField _ field => "field '" ++ field ++ "' is not selected"
  | emptyFrame _ => "frame has no query"

def message (n : Notice) : String :=
  n.operation.name ++ ": " ++ n.reason ++ ", skipped"

end Notice

end QueryTree
