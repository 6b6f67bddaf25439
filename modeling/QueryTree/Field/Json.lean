import QueryTree.Field.Fields
import QueryTree.Json.Reader
import QueryTree.Json.Printer
/-!
Fields as JSON. A field is written as an object without its absent attributes; it is read from such an
object, or from an array of the attributes in the order in which they are written.
-/

namespace QueryTree

inductive Attribute where
  | type
  | asName
  | groupBy
  | expression
  | orderBy
  | select
  | customType
deriving DecidableEq

namespace Attribute

def name : Attribute → String
  | type => "type"
  | asName => "as"
  | groupBy => "group_by"
  | expression => "expression"
  | orderBy => "order_by"
  | select => "select"
  | customType => "custom_type"

def all : List Attribute :=
  [type, asName, groupBy, expression, orderBy, select, customType]

def ofName? (s : String) : Option Attribute :=
  all.find? fun a => a.name == s

theorem ofName?_name (a : Attribute) : ofName? a.name = some a := by
  cases a <;> decide

def listing : List String :=
  [type, asName, groupBy, expression, select, customType, orderBy].map name

end Attribute

namespace Field

def members (f : Field) : Json.Members :=
  Entries.present
    [(Attribute.type.name, some (.string f.type.name)),
      (Attribute.asName.name, f.asName.map .string),
      (Attribute.groupBy.name, f.groupBy.map fun g => .string g.name),
      (Attribute.expression.name, f.expression.map .string),
      (Attribute.orderBy.name, f.orderBy.map fun o => .string o.name),
      (Attribute.select.name, if f.isVisible then none else some (.number (.natural 0))),
      (Attribute.customType.name, f.customType.map .string)]

def toJson (f : Field) : Json :=
  .object f.members

inductive ReadError where
  | malformed
  | keyword (e : UnknownKeyword)
  | visibility (v : Json)
deriving DecidableEq

def ReadError.message? : ReadError → Option String
  | malformed => none
  | keyword e => some e.message
  | visibility v => some ("invalid select value: " ++ v.compact)

structure Draft where
  seen : List Attribute := []
  field : Field := .ofType .dimension

namespace Draft

/-- A field type is a text, or an object with that text as its only name and `null` as its value. -/
def fieldType? : Json → Option FieldType
  | .string s => FieldType.ofName? s
  | .object [(s, .null)] => FieldType.ofName? s
  | _ => none

def optionalText : Json → Except ReadError (Option String)
  | .null => .ok none
  | .string s => .ok (some s)
  | _ => .error .malformed

def optionalKeyword {α : Type} (parse : String → Except UnknownKeyword α) (v : Json) :
    Except ReadError (Option α) := do
  match ← optionalText v with
  | none => .ok none
  | some s => ((parse s).mapError .keyword).map some

def visibility (v : Json) : Except ReadError Visibility :=
  match v with
  | .null => .ok .visible
  | .string "" => .ok .visible
  | .string "0" => .ok .hidden
  | .number (.natural 0) => .ok .hidden
  | v => .error (.visibility v)

def assign (f : Field) (v : Json) : Attribute → Except ReadError Field
  | .type =>
    match fieldType? v with
    | some type => .ok { f with type }
    | none => .error .malformed
  | .asName => (optionalText v).map fun asName => { f with asName }
  | .groupBy => (optionalKeyword GroupBy.parse v).map fun groupBy => { f with groupBy }
  | .expression => (optionalText v).map fun expression => { f with expression }
  | .orderBy => (optionalKeyword SortOrder.parse v).map fun orderBy => { f with orderBy }
  | .select => (visibility v).map fun visibility => { f with visibility }
  | .customType => (optionalText v).map fun customType => { f with customType }

def set (d : Draft) (a : Attribute) (v : Json) : Except ReadError Draft :=
  if a ∈ d.seen then .error .malformed
  else (assign d.field v a).map fun field => ⟨a :: d.seen, field⟩

def setNamed (d : Draft) (name : String) (v : Json) : Except ReadError Draft :=
  match Attribute.ofName? name with
  | some a => d.set a v
  | none => .error .malformed

def finish (d : Draft) : Except ReadError Field :=
  if .type ∈ d.seen then .ok d.field else .error .malformed

end Draft

def ofMembers (ms : Json.Members) : Except ReadError Field := do
  let d ← ms.foldlM (fun (d : Draft) m => d.setNamed m.1 m.2) {}
  d.finish

open Json (Decoder) in
/-- The value of an attribute in JSON text. A type that is an object must not name itself twice, which the
value alone would not show. -/
def attributeValue (room : Nat) : Attribute → Decoder ReadError Json
  | .type, .openObject :: .string s :: .colon :: .null :: .closeObject :: ts => .ok (.object [(s, .null)], ts)
  | .type, .openObject :: _ => .error .malformed
  | _, ts => Decoder.value ReadError.malformed room ts

open Json (Decoder) in
def Draft.next (room : Nat) (d : Draft) (a? : Option Attribute) : Decoder ReadError Draft := fun ts =>
  match a? with
  | none => .error .malformed
  | some a => do
    let (v, ts) ← attributeValue room a ts
    return (← d.set a v, ts)

open Json (Decoder) in
/-- The field at the head of JSON text, read attribute by attribute, so that a problem with one is
reported whatever follows it. -/
def decoder (room : Nat) : Decoder ReadError Field := fun ts => do
  let next := Draft.next (room - 1)
  let (d, ts) ← match ts with
    | .openArray :: _ => Decoder.array ReadError.malformed (fun d i => next d Attribute.all[i]?) {} ts
    | _ => Decoder.object ReadError.malformed (fun d name => next d (Attribute.ofName? name)) {} ts
  return (← d.finish, ts)

def ofText (s : String) : Except ReadError Field :=
  (decoder Json.maxNesting).decode ReadError.malformed s

end Field

namespace Fields

def toJson (fs : Fields) : Json :=
  .object (fs.entries.mapValues Field.toJson)

open Json (Decoder) in
def ofText (s : String) : Except Field.ReadError Fields :=
  (Decoder.object Field.ReadError.malformed
    (fun (fs : Fields) key ts => do
      let (f, ts) ← Field.decoder (Json.maxNesting - 1) ts
      return (fs.insert key f, ts))
    Fields.empty).decode .malformed s

end Fields

end QueryTree
