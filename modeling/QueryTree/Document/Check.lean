import QueryTree.Document.Fault
import QueryTree.Text.Numeral
/-!
Checking stored documents. The walk stops at the first fault. It changes nothing but the aliases of
fields, which it normalizes one by one, so that a value with a fault keeps the aliases before it normalized.

A document is *wrapped* if its block stands under the name `select`, with the queries it reads from under
`sq`, or `sq1`, `sq2` and so on, beside it; otherwise the document is itself a block on a table.
-/

namespace QueryTree

/-- A value after a check, and the first fault found in it. -/
structure Checked (α : Type) where
  value : α
  fault : Option Fault

namespace Checked

variable {α β : Type}

def ok (a : α) : Checked α :=
  ⟨a, none⟩

def failed (a : α) (e : Fault) : Checked α :=
  ⟨a, some e⟩

def map (f : α → β) (c : Checked α) : Checked β :=
  ⟨f c.value, c.fault⟩

def andThen (c : Checked α) (f : α → Checked α) : Checked α :=
  match c.fault with
  | none => f c.value
  | some _ => c

def ofExcept {ε : Type} (a : α) (r : Except Fault ε) : Checked α :=
  match r with
  | .ok _ => ok a
  | .error e => failed a e

@[simp] theorem fault_ok (a : α) : (ok a).fault = none := rfl

@[simp] theorem value_ok (a : α) : (ok a).value = a := rfl

@[simp] theorem fault_failed (a : α) (e : Fault) : (failed a e).fault = some e := rfl

@[simp] theorem fault_map (f : α → β) (c : Checked α) : (c.map f).fault = c.fault := rfl

@[simp] theorem value_map (f : α → β) (c : Checked α) : (c.map f).value = f c.value := rfl

theorem fault_andThen_eq_none_iff {c : Checked α} {f : α → Checked α} :
    (c.andThen f).fault = none ↔ c.fault = none ∧ (f c.value).fault = none := by
  cases h : c.fault <;> simp [andThen, h]

theorem value_andThen {c : Checked α} (h : c.fault = none) (f : α → Checked α) :
    (c.andThen f).value = (f c.value).value := by
  simp [andThen, h]

theorem fault_ofExcept_eq_none_iff {ε : Type} {a : α} {r : Except Fault ε} :
    (ofExcept a r).fault = none ↔ ∃ x, r = .ok x := by
  cases r <;> simp [ofExcept]

@[simp] theorem value_ofExcept {ε : Type} (a : α) (r : Except Fault ε) : (ofExcept a r).value = a := by
  cases r <;> rfl

end Checked

namespace Check

open Json (Members)

def checkType (name : String) (attributes : Members) : Except Fault FieldType :=
  match attributes.get? "type" with
  | none => .error (.missingType name)
  | some v =>
    match v.text?.bind FieldType.ofName? with
    | some type => .ok type
    | none => .error (.invalidType name v.display)

def checkText (name : String) (attributes : Members) (attr : String) : Except Fault Unit :=
  match attributes.get? attr with
  | some v => if v.isTextOrNull then .ok () else .error (.invalidAttributeValue name attr)
  | none => .ok ()

def checkGroupBy (name : String) (type : FieldType) (attributes : Members) : Except Fault Unit :=
  match attributes.get? "group_by" with
  | none => .ok ()
  | some v =>
    match v.text? with
    | none => .error (.invalidAggregation name v.display)
    | some s =>
      if s.isEmpty then .ok ()
      else
        match GroupBy.ofText? s with
        | none => .error (.invalidAggregation name s)
        | some .group => .ok ()
        | some (.aggregate a) => checkAggregable name type a

def isOrder (v : Json) : Bool :=
  match v.text? with
  | some s => s.isEmpty || (SortOrder.ofText? s).isSome
  | none => false

def checkOrderBy (name : String) (attributes : Members) : Except Fault Unit :=
  match attributes.get? "order_by" with
  | none => .ok ()
  | some v => if isOrder v then .ok () else .error (.invalidOrder name v.display)

def isVisibility : Json → Bool
  | .string s => s.isEmpty || s == "0"
  | .number (.natural n) => n == 0
  | _ => false

def checkSelect (name : String) (attributes : Members) : Except Fault Unit :=
  match attributes.get? "select" with
  | none => .ok ()
  | some v => if isVisibility v then .ok () else .error (.invalidVisibility name v.display)

def checkKnown (name : String) (attributes : Members) : Except Fault Unit :=
  match attributes.keys.find? fun a => (Attribute.ofName? a).isNone with
  | some a => .error (.unknownAttribute name a)
  | none => .ok ()

def checkAttributes (name : String) (attributes : Members) : Except Fault Unit := do
  checkKnown name attributes
  let type ← checkType name attributes
  checkText name attributes "as"
  checkText name attributes "expression"
  checkText name attributes "custom_type"
  checkGroupBy name type attributes
  checkOrderBy name attributes
  checkSelect name attributes

def normalizeAliasValue : Json → Json
  | .string s => .string (Alias.normalize s)
  | v => v

def normalizeAlias (attributes : Members) : Members :=
  attributes.modify "as" normalizeAliasValue

def checkField (name : String) (v : Json) : Checked Json :=
  match v with
  | .object attributes =>
    match checkAttributes name attributes with
    | .ok () => .ok (.object (normalizeAlias attributes))
    | .error e => .failed v e
  | v => .failed v (.notAnObject ("fields." ++ name))

def checkFields : Members → Checked Members
  | [] => .ok []
  | (name, v) :: rest =>
    let c := checkField name v
    match c.fault with
    | none => (checkFields rest).map ((name, c.value) :: ·)
    | some e => .failed ((name, c.value) :: rest) e

def checkClause (block : Members) (clause : String) : Except Fault Unit :=
  match block.get? clause with
  | some v => if v.isTextOrNull then .ok () else .error (.invalidClause clause v.compact)
  | none => .ok ()

def isDistinctFlag : Json → Bool
  | .null => true
  | .string s => s.isEmpty || s == "1"
  | .number (.natural n) => n == 1
  | .bool b => b
  | _ => false

def checkDistinct (block : Members) : Except Fault Unit :=
  match block.get? "distinct" with
  | some v => if isDistinctFlag v then .ok () else .error (.invalidDistinct v.display)
  | none => .ok ()

/-- The limit that a value stands for, if it stands for one; `null` and blank texts set no limit. -/
def limit? : Json → Option (Option UInt64)
  | .null => some none
  | .string s => if Text.isBlankText s then some none else (Text.natural? (Text.trim s)).map some
  | .number (.natural n) => some (some n)
  | _ => none

def checkLimit (block : Members) : Except Fault Unit :=
  match block.get? "limit" with
  | some v => if (limit? v).isSome then .ok () else .error (.invalidLimit v.display)
  | none => .ok ()

def checkEntries (block : Members) : Except Fault Unit := do
  checkClause block "where"
  checkClause block "having"
  checkClause block "schema"
  checkDistinct block
  checkLimit block

def checkBlock (block : Members) (path : String) : Checked Members :=
  match block.get? "fields" with
  | none => .failed block (.missingFields path)
  | some (.object fields) =>
    ((checkFields fields).map fun fields => block.insert "fields" (.object fields)).andThen fun block =>
      .ofExcept block (checkEntries block)
  | some _ => .failed block (.notAnObject (path ++ ".fields"))

inductive Source where
  | table
  | subquery
  | join (n : Nat)
  | union (n : Nat)
deriving DecidableEq

def textItem (name : String) (item : Json) : Except String String :=
  match item.text? with
  | some s => .ok s
  | none => .error (name ++ " entries must be strings")

def textList (v : Json) (name : String) : Except String (List String) :=
  match (v.member? name).bind Json.items? with
  | none => .error (name ++ " must be a list")
  | some items => items.mapM (textItem name)

def checkKeywords {α : Type} (parse : String → Except UnknownKeyword α) : List String → Except String Unit
  | [] => .ok ()
  | s :: rest =>
    match parse s with
    | .ok _ => checkKeywords parse rest
    | .error e => .error e.message

def checkNonempty (types : List String) (name : String) : Except String Unit :=
  if types.isEmpty then .error (name ++ " is empty") else .ok ()

def checkUnion (v : Json) : Except String Nat := do
  let types ← textList v "union_type"
  checkNonempty types "union_type"
  checkKeywords UnionType.parse types
  return types.length + 1

def isCondition : Json → Bool
  | .string _ => true
  | .number (.natural n) => n == 0
  | _ => false

def conditionList (v : Json) : Except String (List Json) :=
  match (v.member? "on").bind Json.items? with
  | some on => .ok on
  | none => .error "on must be a list"

def checkSameLength (types : List String) (on : List Json) : Except String Unit :=
  if types.length = on.length then .ok ()
  else .error (toString types.length ++ " join types but " ++ toString on.length ++ " conditions")

def checkConditions (on : List Json) : Except String Unit :=
  match on.find? fun c => !isCondition c with
  | some c => .error ("invalid join condition " ++ c.compact)
  | none => .ok ()

def checkJoin (v : Json) : Except String Nat := do
  let types ← textList v "join_type"
  let on ← conditionList v
  checkNonempty types "join_type"
  checkSameLength types on
  checkKeywords JoinType.parse types
  checkConditions on
  return types.length + 1

def sourceOf (block : Members) (path : String) (hasSubquery : Bool) : Except Fault Source :=
  match block.get? "union", block.get? "join", block.get? "table" with
  | some union, _, _ => ((checkUnion union).map .union).mapError (.invalidUnion path)
  | none, some join, _ => ((checkJoin join).map .join).mapError (.invalidJoin path)
  | none, none, some (.string t) =>
    if !t.isEmpty then .ok .table else if hasSubquery then .ok .subquery else .error (.missingSource path)
  | none, none, some v => .error (.invalidClause "table" v.compact)
  | none, none, none => if hasSubquery then .ok .subquery else .error (.missingSource path)

def subqueryKey : String :=
  "sq"

def childKey (n : Nat) : String :=
  subqueryKey ++ toString n

def Source.childKeys : Source → List String
  | .table => []
  | .subquery => [subqueryKey]
  | .join n | .union n => (List.range n).map fun i => childKey (i + 1)

abbrev Checker := String → Checked Json

def checkChildren (checks : Entries Checker) (path : String) : List String → Members → Checked Members
  | [], node => .ok node
  | key :: keys, node =>
    match checks.get? key with
    | none => .failed node (.missingSubquery path key)
    | some check =>
      ((check (path ++ "." ++ key)).map fun child => node.insert key child).andThen
        (checkChildren checks path keys)

def checkMembers (node : Members) (checks : Entries Checker) (path : String) : Checked Members :=
  match node.get? "select" with
  | some (.object block) =>
    let c := checkBlock block path
    let node := node.insert "select" (.object c.value)
    match c.fault with
    | some e => .failed node e
    | none =>
      match sourceOf c.value path (node.contains subqueryKey) with
      | .error e => .failed node e
      | .ok source => checkChildren checks path source.childKeys node
  | _ => .failed node (.notAnObject (path ++ ".select"))

mutual

def checkNode : Json → Checker
  | .object node, path => (checkMembers node (memberCheckers node) path).map .object
  | v, path => .failed v (.notAnObject path)

def memberCheckers : List (String × Json) → List (String × Checker)
  | [] => []
  | (key, v) :: rest => (key, checkNode v) :: memberCheckers rest

end

theorem get?_memberCheckers (node : Members) (key : String) :
    Entries.get? (memberCheckers node) key = (node.get? key).map checkNode := by
  induction node with
  | nil => simp [memberCheckers]
  | cons m node ih =>
    obtain ⟨k, v⟩ := m
    rw [memberCheckers, Entries.get?_cons, Entries.get?_cons, ih]
    split <;> rfl

def isWrapped (v : Json) : Bool :=
  (v.member? "select").isSome

def rootPath : String :=
  "$"

def checkFlat (block : Members) : Checked Members :=
  (checkBlock block rootPath).andThen fun block =>
    match sourceOf block rootPath false with
    | .ok .table => .ok block
    | .ok _ => .failed block (.missingSource rootPath)
    | .error e => .failed block e

def check (v : Json) : Checked Json :=
  if isWrapped v then checkNode v "select"
  else
    match v with
    | .object block => (checkFlat block).map .object
    | v => .failed v (.notAnObject rootPath)

end Check

end QueryTree
