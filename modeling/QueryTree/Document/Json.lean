import QueryTree.Document.Basic
import QueryTree.Document.Check
/-!
Documents as JSON. A document is written in wrapped form: the queries it reads from come first, each
under its own name, and its block comes last. Reading checks the value first; in what passes the check,
`null` and empty texts mean that an attribute or a clause is absent.
-/

namespace QueryTree.Document

open Json (Members)
open Check (subqueryKey childKey isWrapped)

def conditionText (on : Option String) : String :=
  on.getD "0"

def tableMembers (t : TableRef) : Members :=
  Entries.present [("schema", t.schema.map .string), ("table", some (.string t.table))]

def joinMember (links : List JoinLink) : String × Json :=
  ("join", .object
    [("join_type", .array (links.map fun l => .string l.type.sql)),
      ("on", .array (links.map fun l => .string (conditionText l.on)))])

def unionMember (types : List UnionType) : String × Json :=
  ("union", .object [("union_type", .array (types.map fun t => .string t.sql))])

def blockMembers (b : Block) (source : Members) : Members :=
  ("fields", b.fields.toJson) :: source ++
    Entries.present
      [("where", b.filter.map .string),
        ("having", b.having.map .string),
        ("distinct", if b.distinct then some (.number (.natural 1)) else none),
        ("limit", b.limit.map fun n => .string (Text.naturalText n))]

def selectMember (b : Block) (source : Members) : String × Json :=
  ("select", .object (blockMembers b source))

mutual

def toJson : Document → Json
  | table b source => .object [selectMember b (tableMembers source)]
  | subquery b inner => .object [(subqueryKey, toJson inner), selectMember b []]
  | join b left joined =>
    .object ((childKey 1, toJson left) :: joinedMembers 2 joined ++
      [selectMember b [joinMember (joined.map Prod.fst)]])
  | union b first members =>
    .object ((childKey 1, toJson first) :: unitedMembers 2 members ++
      [selectMember b [unionMember (members.map Prod.fst)]])

def joinedMembers (n : Nat) : List (JoinLink × Document) → List (String × Json)
  | [] => []
  | (_, d) :: rest => (childKey n, toJson d) :: joinedMembers (n + 1) rest

def unitedMembers (n : Nat) : List (UnionType × Document) → List (String × Json)
  | [] => []
  | (_, d) :: rest => (childKey n, toJson d) :: unitedMembers (n + 1) rest

end

def text? (block : Members) (name : String) : Option String :=
  match block.get? name with
  | some (.string s) => if s.isEmpty then none else some s
  | _ => none

def tableRef? (block : Members) : Option TableRef :=
  (text? block "table").map fun table => { schema := text? block "schema", table }

def isDistinct : Json → Bool
  | .string s => s == "1"
  | .number (.natural n) => n == 1
  | .bool b => b
  | _ => false

def isAbsent : Json → Bool
  | .null => true
  | .string s => s.isEmpty
  | _ => false

def condition? : Json → Option String
  | .string s => if Text.isBlankText s || Text.trim s == "0" then none else some s
  | _ => none

def readField (path name : String) (v : Json) : Except Fault Field :=
  let place := path ++ ".fields." ++ name
  match v with
  | .object attributes =>
    (Field.ofMembers (attributes.filter fun a => !isAbsent a.2)).mapError fun e =>
      .malformed place (e.message?.getD "not a field")
  | _ => .error (.notAnObject place)

def readFields (path : String) (ms : Members) : Except Fault Fields := do
  let fields ← ms.mapM fun m => return (m.1, ← readField path m.1 m.2)
  return .ofList fields

def readLimit (block : Members) : Except Fault (Option UInt64) :=
  match block.get? "limit" with
  | none => .ok none
  | some v =>
    match Check.limit? v with
    | some limit => .ok limit
    | none => .error (.invalidLimit v.compact)

def readBlockFields (block : Members) (path : String) : Except Fault Fields :=
  match block.get? "fields" with
  | some (.object fields) => readFields path fields
  | some _ => .error (.notAnObject (path ++ ".fields"))
  | none => .error (.missingFields path)

def readBlock (block : Members) (path : String) : Except Fault Block := do
  let fields ← readBlockFields block path
  let limit ← readLimit block
  return {
    fields
    filter := text? block "where"
    having := text? block "having"
    distinct := ((block.get? "distinct").map isDistinct).getD false
    limit }

def readKeywordItem {α : Type} (parse : String → Except UnknownKeyword α) (name : String) (item : Json) :
    Except String α :=
  match item.text? with
  | some s => (parse s).mapError UnknownKeyword.message
  | none => .error (Fault.quoted name ++ " entries must be strings")

def readKeywords {α : Type} (parse : String → Except UnknownKeyword α) (v : Json) (name : String) :
    Except String (List α) :=
  match (v.member? name).bind Json.items? with
  | none => .error (Fault.quoted name ++ " must be a list")
  | some items => items.mapM (readKeywordItem parse name)

def readUnionTypes (v : Json) (path : String) : Except Fault (List UnionType) :=
  (readKeywords UnionType.parse v "union_type").mapError (.malformed path)

def readConditions (v : Json) (path : String) : Except Fault (List (Option String)) :=
  match (v.member? "on").bind Json.items? with
  | some on => .ok (on.map condition?)
  | none => .error (.malformed path "join has no 'on' list")

def readJoinLinks (v : Json) (path : String) : Except Fault (List JoinLink) := do
  let types ← (readKeywords JoinType.parse v "join_type").mapError (.malformed path)
  let on ← readConditions v path
  return types.zipWith JoinLink.mk on

abbrev Reader := String → Except Fault Document

def readChild (readers : Entries Reader) (path key : String) : Except Fault Document :=
  match readers.get? key with
  | some read => read (path ++ "." ++ key)
  | none => .error (.missingSubquery path key)

def readChain {α : Type} (readers : Entries Reader) (path : String) (n : Nat) :
    List α → Except Fault (List (α × Document))
  | [] => .ok []
  | link :: links => do
    let d ← readChild readers path (childKey n)
    return (link, d) :: (← readChain readers path (n + 1) links)

def selectBlock (node : Members) (path : String) : Except Fault Members :=
  match node.get? "select" with
  | some (.object block) => .ok block
  | _ => .error (.notAnObject (path ++ ".select"))

def readSource (block : Members) (readers : Entries Reader) (path : String) : Except Fault Document :=
  match block.get? "union", block.get? "join", tableRef? block with
  | some v, _, _ => do
    let types ← readUnionTypes v path
    let first ← readChild readers path (childKey 1)
    let members ← readChain readers path 2 types
    return .union (← readBlock block path) first members
  | none, some v, _ => do
    let links ← readJoinLinks v path
    let left ← readChild readers path (childKey 1)
    let joined ← readChain readers path 2 links
    return .join (← readBlock block path) left joined
  | none, none, some source => return .table (← readBlock block path) source
  | none, none, none => do
    let inner ← readChild readers path subqueryKey
    return .subquery (← readBlock block path) inner

def readMembers (node : Members) (readers : Entries Reader) (path : String) : Except Fault Document := do
  readSource (← selectBlock node path) readers path

mutual

def readNode : Json → Reader
  | .object node, path => readMembers node (memberReaders node) path
  | _, path => .error (.notAnObject path)

def memberReaders : List (String × Json) → List (String × Reader)
  | [] => []
  | (key, v) :: rest => (key, readNode v) :: memberReaders rest

end

theorem get?_memberReaders (node : Members) (key : String) :
    Entries.get? (memberReaders node) key = (node.get? key).map readNode := by
  induction node with
  | nil => simp [memberReaders]
  | cons m node ih =>
    obtain ⟨k, v⟩ := m
    rw [memberReaders, Entries.get?_cons, Entries.get?_cons, ih]
    split <;> rfl

def readFlat (block : Members) : Except Fault Document :=
  match tableRef? block with
  | some source => (readBlock block Check.rootPath).map fun b => .table b source
  | none => .error (.missingSource Check.rootPath)

def readChecked (v : Json) : Except Fault Document :=
  if isWrapped v then readNode v "select"
  else
    match v with
    | .object block => readFlat block
    | _ => .error (.notAnObject Check.rootPath)

def ofJson (v : Json) : Except Fault Document :=
  let c := Check.check v
  match c.fault with
  | some e => .error e
  | none => readChecked c.value

end QueryTree.Document
