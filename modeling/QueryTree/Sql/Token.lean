import QueryTree.Document.Basic
import QueryTree.Text.Numeral
/-!
SQL tokens. Keywords, punctuation and spaces are tokens of their own; text that a document brings along
is one `raw` token. The text of a list of tokens is the concatenation of their texts.
-/

namespace QueryTree.Sql

inductive Token where
  | select
  | distinct
  | from
  | where
  | groupBy
  | having
  | orderBy
  | limit
  | on
  | join (type : JoinType)
  | union (type : UnionType)
  | create
  | table
  | insert
  | into
  | delete
  | comma
  | openParen
  | closeParen
  | space
  | identifier (name : String)
  | qualified (schema : Option String) (name : String)
  | natural (n : UInt64)
  | raw (text : String)
deriving DecidableEq

namespace Token

def text : Token → String
  | select => "SELECT"
  | distinct => "DISTINCT"
  | «from» => "FROM"
  | «where» => "WHERE"
  | groupBy => "GROUP BY"
  | having => "HAVING"
  | orderBy => "ORDER BY"
  | limit => "LIMIT"
  | on => "ON"
  | join type => type.sql
  | union type => type.sql
  | create => "CREATE"
  | table => "TABLE"
  | insert => "INSERT"
  | into => "INTO"
  | delete => "DELETE"
  | comma => ","
  | openParen => "("
  | closeParen => ")"
  | space => " "
  | identifier name => name
  | qualified schema name => TableRef.qualified schema name
  | natural n => Text.naturalText n
  | raw s => s

end Token

def text (ts : List Token) : String :=
  String.join (ts.map Token.text)

def commaSeparated : List Token → List Token
  | [] => []
  | t :: ts => t :: ts.flatMap fun t => [.comma, .space, t]

def clause (keyword operand : Token) : List Token :=
  [.space, keyword, .space, operand]

def listClause (keyword : Token) (items : List Token) : List Token :=
  if items.isEmpty then [] else .space :: keyword :: .space :: commaSeparated items

def optionalClause (keyword : Token) (operand : Option Token) : List Token :=
  match operand with
  | some t => clause keyword t
  | none => []

def tableTokens (t : TableRef) : List Token :=
  [.qualified t.schema t.table]

end QueryTree.Sql
