import QueryTree.Field.Fields
/-!
Query documents: trees of SELECT nodes. A node has a block of its own (columns, conditions, limit) and
reads its rows from a table, from a subquery, from a chain of joins, or from a chain of unions.
-/

namespace QueryTree

structure TableRef where
  schema : Option String := none
  table : String
deriving DecidableEq

namespace TableRef

def withSchema (t : TableRef) (schema : String) : TableRef :=
  { t with schema := if schema.isEmpty then none else some schema }

def qualified (schema : Option String) (name : String) : String :=
  match schema with
  | some s => s ++ "." ++ name
  | none => name

def text (t : TableRef) : String :=
  qualified t.schema t.table

end TableRef

structure Block where
  fields : Fields
  filter : Option String := none
  having : Option String := none
  distinct : Bool := false
  limit : Option UInt64 := none
deriving DecidableEq

def Block.agree (b c : Block) : Bool :=
  b.fields.agree c.fields && decide (b = { c with fields := b.fields })

structure JoinLink where
  type : JoinType
  on : Option String
deriving DecidableEq

inductive Document where
  | table (block : Block) (source : TableRef)
  | subquery (block : Block) (inner : Document)
  | join (block : Block) (left : Document) (joined : List (JoinLink × Document))
  | union (block : Block) (first : Document) (members : List (UnionType × Document))

inductive SourceKind where
  | table
  | subquery
  | join
  | union
deriving DecidableEq

def SourceKind.name : SourceKind → String
  | table => "table"
  | subquery => "subquery"
  | join => "join"
  | union => "union"

namespace Document

def block : Document → Block
  | table b _ | subquery b _ | join b _ _ | union b _ _ => b

def mapBlock (f : Block → Block) : Document → Document
  | table b source => table (f b) source
  | subquery b inner => subquery (f b) inner
  | join b left joined => join (f b) left joined
  | union b first members => union (f b) first members

def fields (d : Document) : Fields :=
  d.block.fields

def mapFields (f : Fields → Fields) (d : Document) : Document :=
  d.mapBlock fun b => { b with fields := f b.fields }

def kind : Document → SourceKind
  | table .. => .table
  | subquery .. => .subquery
  | join .. => .join
  | union .. => .union

def isUnion (d : Document) : Bool :=
  d.kind == .union

def table? : Document → Option TableRef
  | table _ source => some source
  | _ => none

def children : Document → List Document
  | table .. => []
  | subquery _ inner => [inner]
  | join _ left joined => left :: joined.map Prod.snd
  | union _ first members => first :: members.map Prod.snd

@[simp] theorem block_mapBlock (f : Block → Block) (d : Document) : (d.mapBlock f).block = f d.block := by
  cases d <;> rfl

@[simp] theorem kind_mapBlock (f : Block → Block) (d : Document) : (d.mapBlock f).kind = d.kind := by
  cases d <;> rfl

@[simp] theorem children_mapBlock (f : Block → Block) (d : Document) : (d.mapBlock f).children = d.children := by
  cases d <;> rfl

mutual

def nodeCount : Document → Nat
  | table .. => 1
  | subquery _ inner => 1 + nodeCount inner
  | join _ left joined => 1 + nodeCount left + joinedNodeCount joined
  | union _ first members => 1 + nodeCount first + memberNodeCount members

def joinedNodeCount : List (JoinLink × Document) → Nat
  | [] => 0
  | (_, d) :: rest => nodeCount d + joinedNodeCount rest

def memberNodeCount : List (UnionType × Document) → Nat
  | [] => 0
  | (_, d) :: rest => nodeCount d + memberNodeCount rest

end

mutual

def agree : Document → Document → Bool
  | .table b s, .table c t => b.agree c && decide (s = t)
  | .subquery b i, .subquery c j => b.agree c && agree i j
  | .join b l js, .join c m ks => b.agree c && agree l m && agreeJoined js ks
  | .union b f ms, .union c g ns => b.agree c && agree f g && agreeMembers ms ns
  | _, _ => false

def agreeJoined : List (JoinLink × Document) → List (JoinLink × Document) → Bool
  | [], [] => true
  | (l, d) :: js, (m, e) :: ks => decide (l = m) && agree d e && agreeJoined js ks
  | _, _ => false

def agreeMembers : List (UnionType × Document) → List (UnionType × Document) → Bool
  | [], [] => true
  | (t, d) :: ms, (u, e) :: ns => decide (t = u) && agree d e && agreeMembers ms ns
  | _, _ => false

end

mutual

def decEq : (d e : Document) → Decidable (d = e)
  | .table b s, e => match e with
    | .table c t => decidable_of_iff (b = c ∧ s = t) (by simp)
    | .subquery .. | .join .. | .union .. => isFalse nofun
  | .subquery b i, e => match e with
    | .subquery c j =>
      have := decEq i j
      decidable_of_iff (b = c ∧ i = j) (by simp)
    | .table .. | .join .. | .union .. => isFalse nofun
  | .join b l js, e => match e with
    | .join c m ks =>
      have := decEq l m
      have := decEqJoined js ks
      decidable_of_iff (b = c ∧ l = m ∧ js = ks) (by simp)
    | .table .. | .subquery .. | .union .. => isFalse nofun
  | .union b f ms, e => match e with
    | .union c g ns =>
      have := decEq f g
      have := decEqMembers ms ns
      decidable_of_iff (b = c ∧ f = g ∧ ms = ns) (by simp)
    | .table .. | .subquery .. | .join .. => isFalse nofun

def decEqJoined : (js ks : List (JoinLink × Document)) → Decidable (js = ks)
  | [], [] => isTrue rfl
  | [], _ :: _ | _ :: _, [] => isFalse nofun
  | (l, d) :: js, (m, e) :: ks =>
    have := decEq d e
    have := decEqJoined js ks
    decidable_of_iff (l = m ∧ d = e ∧ js = ks) (by simp [and_assoc])

def decEqMembers : (ms ns : List (UnionType × Document)) → Decidable (ms = ns)
  | [], [] => isTrue rfl
  | [], _ :: _ | _ :: _, [] => isFalse nofun
  | (t, d) :: ms, (u, e) :: ns =>
    have := decEq d e
    have := decEqMembers ms ns
    decidable_of_iff (t = u ∧ d = e ∧ ms = ns) (by simp [and_assoc])

end

instance : DecidableEq Document := decEq

end Document

end QueryTree
