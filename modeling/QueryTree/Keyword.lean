import QueryTree.Text.Blank
/-!
Keywords: the texts that name a field type, an aggregation, a grouping, a direction, or a kind of join
or union. A text that names none is reported with the kind of keyword it was read as.
-/

namespace QueryTree

inductive KeywordKind where
  | fieldType
  | aggregation
  | groupBy
  | orderBy
  | joinType
  | unionType
deriving DecidableEq

def KeywordKind.label : KeywordKind → String
  | .fieldType => "field type"
  | .aggregation => "aggregation"
  | .groupBy => "group_by"
  | .orderBy => "order_by"
  | .joinType => "join type"
  | .unionType => "union type"

structure UnknownKeyword where
  kind : KeywordKind
  text : String
deriving DecidableEq

def UnknownKeyword.message (e : UnknownKeyword) : String :=
  "invalid " ++ e.kind.label ++ ": '" ++ e.text ++ "'"

def readKeyword {α : Type} (kind : KeywordKind) (read? : String → Option α) (s : String) :
    Except UnknownKeyword α :=
  match read? s with
  | some a => .ok a
  | none => .error ⟨kind, s⟩

theorem readKeyword_eq_ok_iff {α : Type} {kind : KeywordKind} {read? : String → Option α} {s : String} {a : α} :
    readKeyword kind read? s = .ok a ↔ read? s = some a := by
  unfold readKeyword
  cases read? s <;> simp

inductive FieldType where
  | dimension
  | numeric
deriving DecidableEq

namespace FieldType

def name : FieldType → String
  | dimension => "dim"
  | numeric => "num"

def ofName? : String → Option FieldType
  | "dim" => some dimension
  | "num" => some numeric
  | _ => none

theorem ofName?_name (t : FieldType) : ofName? t.name = some t := by
  cases t <;> rfl

def parse : String → Except UnknownKeyword FieldType :=
  readKeyword .fieldType ofName?

end FieldType

inductive Aggregation where
  | sum
  | count
  | min
  | max
  | avg
deriving DecidableEq

namespace Aggregation

def name : Aggregation → String
  | sum => "sum"
  | count => "count"
  | min => "min"
  | max => "max"
  | avg => "avg"

def functionName : Aggregation → String
  | sum => "SUM"
  | count => "COUNT"
  | min => "MIN"
  | max => "MAX"
  | avg => "AVG"

def apply (a : Aggregation) (expression : String) : String :=
  a.functionName ++ "(" ++ expression ++ ")"

def ofName? : String → Option Aggregation
  | "sum" => some sum
  | "count" => some count
  | "min" => some min
  | "max" => some max
  | "avg" => some avg
  | _ => none

def ofText? (s : String) : Option Aggregation :=
  ofName? (Text.foldCase (Text.trim s))

def parse : String → Except UnknownKeyword Aggregation :=
  readKeyword .aggregation ofText?

end Aggregation

inductive GroupBy where
  | group
  | aggregate (a : Aggregation)
deriving DecidableEq

namespace GroupBy

def name : GroupBy → String
  | group => "group"
  | aggregate a => a.name

def aggregation? : GroupBy → Option Aggregation
  | group => none
  | aggregate a => some a

def ofText? (s : String) : Option GroupBy :=
  if Text.foldCase (Text.trim s) = "group" then some group
  else (Aggregation.ofText? s).map aggregate

theorem ofText?_name (g : GroupBy) : ofText? g.name = some g := by
  rcases g with _ | a
  · decide
  · cases a <;> decide

def parse : String → Except UnknownKeyword GroupBy :=
  readKeyword .groupBy ofText?

end GroupBy

inductive SortOrder where
  | ascending
  | descending
deriving DecidableEq

namespace SortOrder

def name : SortOrder → String
  | ascending => "ASC"
  | descending => "DESC"

def ofAscending (b : Bool) : SortOrder :=
  if b then ascending else descending

def ofName? : String → Option SortOrder
  | "asc" => some ascending
  | "desc" => some descending
  | _ => none

def ofText? (s : String) : Option SortOrder :=
  ofName? (Text.foldCase (Text.trim s))

theorem ofText?_name (o : SortOrder) : ofText? o.name = some o := by
  cases o <;> decide

def parse : String → Except UnknownKeyword SortOrder :=
  readKeyword .orderBy ofText?

end SortOrder

inductive JoinType where
  | inner
  | left
  | right
  | full
  | cross
deriving DecidableEq

namespace JoinType

def sql : JoinType → String
  | inner => "JOIN"
  | left => "LEFT JOIN"
  | right => "RIGHT JOIN"
  | full => "FULL JOIN"
  | cross => "CROSS JOIN"

def ofName? : String → Option JoinType
  | "inner" => some inner
  | "left" => some left
  | "right" => some right
  | "full" => some full
  | "cross" => some cross
  | _ => none

/-- The kind that words in lower case name: a last word `join` may be left out, and before it a second
word `outer`; `join` alone is an inner join. -/
def ofWords? (words : List String) : Option JoinType :=
  let bare := words.getLast? == some "join"
  let words := if bare then words.dropLast else words
  match words with
  | [] => if bare then some inner else none
  | [kind] => ofName? kind
  | [kind, "outer"] => ofName? kind
  | _ => none

def ofText? (s : String) : Option JoinType :=
  ofWords? (Text.words (Text.foldCase s))

theorem ofText?_sql (t : JoinType) : ofText? t.sql = some t := by
  cases t <;> decide

def parse : String → Except UnknownKeyword JoinType :=
  readKeyword .joinType ofText?

end JoinType

inductive UnionType where
  | distinct
  | all
deriving DecidableEq

namespace UnionType

def sql : UnionType → String
  | distinct => "UNION"
  | all => "UNION ALL"

def ofWords? : List String → Option UnionType
  | ["union"] => some distinct
  | ["union", "all"] => some all
  | _ => none

def ofText? (s : String) : Option UnionType :=
  ofWords? (Text.words (Text.foldCase s))

theorem ofText?_sql (t : UnionType) : ofText? t.sql = some t := by
  cases t <;> decide

def parse : String → Except UnknownKeyword UnionType :=
  readKeyword .unionType ofText?

end UnionType

end QueryTree
