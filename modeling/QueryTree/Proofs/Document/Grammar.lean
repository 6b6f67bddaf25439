import Mathlib.Tactic.Lemma
import QueryTree.Document.Check
/-! The grammar of stored documents, said without the walk that checks them. -/

namespace QueryTree.Grammar

open Json (Members)
open Check (Source)

def IsOptionalText (entry : Option Json) : Prop :=
  entry = none ∨ entry = some .null ∨ ∃ s, entry = some (.string s)

def attributeNames : List String :=
  ["type", "as", "group_by", "expression", "select", "custom_type", "order_by"]

structure IsAttributes (attributes : Members) : Prop where
  known : ∀ name ∈ attributes.keys, name ∈ attributeNames
  type : attributes.get? "type" = some (.string "dim") ∨ attributes.get? "type" = some (.string "num")
  texts : ∀ name ∈ ["as", "expression", "custom_type"], IsOptionalText (attributes.get? name)
  grouping : attributes.get? "group_by" = none ∨ attributes.get? "group_by" = some (.string "") ∨
    ∃ s g, attributes.get? "group_by" = some (.string s) ∧ GroupBy.ofText? s = some g ∧
      (g = .group ∨ attributes.get? "type" = some (.string "num"))
  ordering : attributes.get? "order_by" = none ∨ attributes.get? "order_by" = some (.string "") ∨
    ∃ s o, attributes.get? "order_by" = some (.string s) ∧ SortOrder.ofText? s = some o
  selection : attributes.get? "select" = none ∨ attributes.get? "select" = some (.string "") ∨
    attributes.get? "select" = some (.string "0") ∨ attributes.get? "select" = some (.number (.natural 0))

def IsFieldObject (v : Json) : Prop :=
  ∃ attributes, v = .object attributes ∧ IsAttributes attributes

def IsNumeral (s : String) : Prop :=
  ∃ digits, (s.toList = digits ∨ s.toList = '+' :: digits) ∧ digits ≠ [] ∧ (∀ c ∈ digits, c.isDigit) ∧
    Nat.ofDigitChars 10 digits 0 < UInt64.size

def IsLimit (v : Json) : Prop :=
  v = .null ∨ (∃ s, v = .string s ∧ ((∀ c ∈ s.toList, Text.isBlank c) ∨ IsNumeral (Text.trim s))) ∨
    ∃ n, v = .number (.natural n)

def IsDistinct (v : Json) : Prop :=
  v = .null ∨ v = .string "" ∨ v = .string "1" ∨ v = .number (.natural 1) ∨ v = .bool true

structure IsBlock (block : Members) : Prop where
  fields : ∃ fields : Members, block.get? "fields" = some (.object fields) ∧ ∀ m ∈ fields, IsFieldObject m.2
  clauses : ∀ name ∈ ["where", "having", "schema"], IsOptionalText (block.get? name)
  distinct : ∀ v, block.get? "distinct" = some v → IsDistinct v
  limit : ∀ v, block.get? "limit" = some v → IsLimit v

def IsCondition (v : Json) : Prop :=
  (∃ s, v = .string s) ∨ v = .number (.natural 0)

inductive ReadsFrom (block : Members) : Source → Prop
  | union {u : Members} {types : List String} (union : block.get? "union" = some (.object u))
      (list : u.get? "union_type" = some (.array (types.map .string))) (nonempty : types ≠ [])
      (known : ∀ t ∈ types, ∃ k, UnionType.parse t = .ok k) : ReadsFrom block (.union (types.length + 1))
  | join {j : Members} {types : List String} {on : List Json} (union : block.get? "union" = none)
      (join : block.get? "join" = some (.object j)) (list : j.get? "join_type" = some (.array (types.map .string)))
      (nonempty : types ≠ []) (known : ∀ t ∈ types, ∃ k, JoinType.parse t = .ok k)
      (conditions : j.get? "on" = some (.array on)) (length : types.length = on.length)
      (condition : ∀ c ∈ on, IsCondition c) : ReadsFrom block (.join (types.length + 1))
  | table {t : String} (union : block.get? "union" = none) (join : block.get? "join" = none)
      (table : block.get? "table" = some (.string t)) (named : t ≠ "") : ReadsFrom block .table
  | subquery (union : block.get? "union" = none) (join : block.get? "join" = none)
      (table : block.get? "table" = none ∨ block.get? "table" = some (.string "")) : ReadsFrom block .subquery

inductive IsNode : Json → Prop
  | node {node block : Members} {source : Source} (select : node.get? "select" = some (.object block))
      (isBlock : IsBlock block) (readsFrom : ReadsFrom block source)
      (present : ∀ key ∈ source.childKeys, key ∈ node.keys)
      (children : ∀ key ∈ source.childKeys, ∀ v, node.get? key = some v → IsNode v) : IsNode (.object node)

inductive IsDocument : Json → Prop
  | wrapped {node : Members} (select : "select" ∈ node.keys) (isNode : IsNode (.object node)) :
      IsDocument (.object node)
  | flat {block : Members} {t : String} (select : "select" ∉ block.keys) (isBlock : IsBlock block)
      (union : "union" ∉ block.keys) (join : "join" ∉ block.keys)
      (table : block.get? "table" = some (.string t)) (named : t ≠ "") : IsDocument (.object block)

end QueryTree.Grammar
