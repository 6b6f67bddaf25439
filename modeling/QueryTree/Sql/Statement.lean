import QueryTree.Sql.Columns
import QueryTree.Sql.Token
/-!
Statements on the table that takes the rows of a query: creating it, filling it, and deleting from it.
-/

namespace QueryTree.Sql

def schemaOver (old : Option String) (new : String) : Option String :=
  if new.isEmpty then old else some new

structure ColumnDefinition where
  name : String
  type : String
deriving DecidableEq

def ColumnDefinition.tokens (c : ColumnDefinition) : List Token :=
  [.identifier c.name, .space, .raw c.type]

structure CreateTable where
  schema : Option String := none
  name : String
  columns : List ColumnDefinition := []
deriving DecidableEq

namespace CreateTable

def ofColumns (name : String) (c : Columns) : CreateTable :=
  { name, columns := c.aliases.zipWith ColumnDefinition.mk c.types }

def withSchema (t : CreateTable) (schema : String) : CreateTable :=
  { t with schema := schemaOver t.schema schema }

def withColumn (t : CreateTable) (c : ColumnDefinition) : CreateTable :=
  { t with columns := t.columns ++ [c] }

def columnTokens : List ColumnDefinition → List Token
  | [] => []
  | c :: cs => c.tokens ++ cs.flatMap fun c => .comma :: .space :: c.tokens

def tokens (t : CreateTable) : List Token :=
  [.create, .space, .table, .space, .qualified t.schema t.name, .space, .openParen]
    ++ columnTokens t.columns ++ [.closeParen]

def sql (t : CreateTable) : String :=
  text t.tokens

end CreateTable

structure Insert where
  schema : Option String := none
  table : String
  columns : List String := []
  query : Option String := none
deriving DecidableEq

namespace Insert

def withSchema (s : Insert) (schema : String) : Insert :=
  { s with schema := schemaOver s.schema schema }

def withColumns (s : Insert) (columns : List String) : Insert :=
  { s with columns }

def withQuery (s : Insert) (query : String) : Insert :=
  { s with query := some query }

def columnTokens (columns : List String) : List Token :=
  if columns.isEmpty then []
  else [.space, .openParen] ++ commaSeparated (columns.map .identifier) ++ [.closeParen]

def queryTokens (query : Option String) : List Token :=
  match query with
  | some q => [.space, .raw q]
  | none => []

def tokens (s : Insert) : List Token :=
  [.insert, .space, .into, .space, .qualified s.schema s.table] ++ columnTokens s.columns ++ queryTokens s.query

def sql (s : Insert) : String :=
  text s.tokens

end Insert

structure Delete where
  schema : Option String := none
  table : String
  filter : Option String := none
deriving DecidableEq

namespace Delete

def withSchema (s : Delete) (schema : String) : Delete :=
  { s with schema := schemaOver s.schema schema }

def withFilter (s : Delete) (condition : String) : Delete :=
  { s with filter := some condition }

def tokens (s : Delete) : List Token :=
  [.delete, .space, .from, .space, .qualified s.schema s.table] ++ optionalClause .where (s.filter.map .raw)

def sql (s : Delete) : String :=
  text s.tokens

def each (table : String) (schema : Option String) (conditions : List String) : List Delete :=
  conditions.map fun c => (Delete.withSchema { table } (schema.getD "")).withFilter c

end Delete

end QueryTree.Sql
