import QueryTree.Proofs.Document.Tree
import QueryTree.Sql.Render
/-! The tokens of a node that is no union: its start, its source and its clauses. -/

namespace QueryTree.Document

open Sql
open Check (subqueryKey childKey)

structure Shown where
  distinct : Bool
  names : List String
  filter : Option String
  dimensions : List String
  having : Option String
  order : List String
  limit : Option UInt64
deriving DecidableEq

def Shown.ofBlock (b : Block) : Shown :=
  let c := Columns.ofFields {} b.fields
  { distinct := b.distinct, names := c.names, filter := b.filter, dimensions := c.dimensions, having := b.having,
    order := c.order, limit := b.limit }

def headTokens (n : Shown) : List Token :=
  .select :: (if n.distinct then [.space, .distinct] else []) ++ .space :: commaSeparated (n.names.map .raw)
    ++ [.space, .from, .space]

def clauseTokens (n : Shown) : List Token :=
  optionalClause .where (n.filter.map .raw) ++ (listClause .groupBy (n.dimensions.map .identifier) ++
    (optionalClause .having (n.having.map .raw) ++ (listClause .orderBy (n.order.map .raw) ++
      optionalClause .limit (n.limit.map .natural))))

lemma bodyTokens_append_endTokens (b : Block) (source : List Token) :
    bodyTokens b source ++ endTokens b =
      headTokens (.ofBlock b) ++ (source ++ clauseTokens (.ofBlock b)) := by
  simp only [bodyTokens, selectTokens, conditionTokens, endTokens, headTokens, clauseTokens, List.append_assoc]
  rfl

def sourceTokens : Document → List Token
  | table _ t => tableTokens t
  | subquery _ inner => wrapped inner.tokens subqueryKey
  | join _ left joined => wrapped left.tokens (childKey 1) ++ joinedTokens 2 joined
  | union .. => []

lemma tokens_eq {d : Document} (h : d.isUnion = false) : d.tokens =
    headTokens (.ofBlock d.block) ++ (d.sourceTokens ++ clauseTokens (.ofBlock d.block)) := by
  cases d with
  | union => cases h
  | table | subquery | join => rw [tokens, bodyTokens_append_endTokens]; rfl

end QueryTree.Document
