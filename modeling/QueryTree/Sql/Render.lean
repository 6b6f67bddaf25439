import QueryTree.Document.Check
import QueryTree.Sql.Columns
import QueryTree.Sql.Token
/-!
Documents as SQL on one line. A query that another one reads from stands in parentheses under the alias
`sq`, or `sq1`, `sq2` and so on in a chain of joins; the members of a union stand bare.
-/

namespace QueryTree.Document

open Sql
open Check (subqueryKey childKey)

def columns (d : Document) : Columns :=
  .ofFields {} d.fields

def selectTokens (distinct : Bool) (c : Columns) : List Token :=
  .select :: (if distinct then [.space, .distinct] else []) ++ .space :: commaSeparated (c.names.map .raw)

def conditionTokens (b : Block) (c : Columns) : List Token :=
  optionalClause .where (b.filter.map .raw) ++ listClause .groupBy (c.dimensions.map .identifier)
    ++ optionalClause .having (b.having.map .raw)

def bodyTokens (b : Block) (source : List Token) : List Token :=
  let c := Columns.ofFields {} b.fields
  selectTokens b.distinct c ++ [.space, .from, .space] ++ source ++ conditionTokens b c

def endTokens (b : Block) : List Token :=
  let c := Columns.ofFields {} b.fields
  listClause .orderBy (c.order.map .raw) ++ optionalClause .limit (b.limit.map .natural)

def wrapped (query : List Token) (name : String) : List Token :=
  .openParen :: query ++ [.closeParen, .space, .identifier name]

def linkTokens (link : JoinLink) (query : List Token) (name : String) : List Token :=
  [.space, .join link.type, .space] ++ wrapped query name ++ optionalClause .on (link.on.map .raw)

mutual

def tokens : Document → List Token
  | table b source => bodyTokens b (tableTokens source) ++ endTokens b
  | subquery b inner => bodyTokens b (wrapped (tokens inner) subqueryKey) ++ endTokens b
  | join b left joined =>
    bodyTokens b (wrapped (tokens left) (childKey 1) ++ joinedTokens 2 joined) ++ endTokens b
  | union b first members => tokens first ++ memberTokens members ++ endTokens b

def joinedTokens (n : Nat) : List (JoinLink × Document) → List Token
  | [] => []
  | (link, d) :: rest => linkTokens link (tokens d) (childKey n) ++ joinedTokens (n + 1) rest

def memberTokens : List (UnionType × Document) → List Token
  | [] => []
  | (type, d) :: rest => .space :: .union type :: .space :: tokens d ++ memberTokens rest

end

def sql (d : Document) : String :=
  text d.tokens

end QueryTree.Document
