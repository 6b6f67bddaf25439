import QueryTree.Frame.Edit
/-!
Joins and unions of frames. The documents of the frames become the children of a new one, which takes the
settings of the first frame.
-/

namespace QueryTree.Frame

def documents (op : Operation) (frames : List Frame) : Except Error (List Document) :=
  frames.mapM fun f =>
    match f.document with
    | some d => .ok d
    | none => .error (.emptyFrame op)

def firstSettings (frames : List Frame) : Settings :=
  match frames with
  | f :: _ => f.settings
  | [] => {}

def condition? (on : String) : Option String :=
  let s := Text.trim on
  if s.isEmpty || s == "0" then none else some s

structure Collected where
  fields : Fields := .empty
  names : List String := []

/-- The visible fields of the query under `query` added; if `unique`, not those whose name is taken. -/
def Collected.add (unique : Bool) (query : String) (c : Collected) : List (String × Field) → Collected
  | [] => c
  | (key, field) :: rest =>
    let name := field.outputName key
    if unique && c.names.contains name then add unique query c rest
    else
      add unique query
        { fields := c.fields.insert (columnKey query name) (field.projected name), names := name :: c.names } rest

def Collected.addAll (unique : Bool) (n : Nat) (c : Collected) : List Document → Collected
  | [] => c
  | d :: ds => addAll unique (n + 1) (c.add unique (Check.childKey n) d.fields.visible) ds

/-- Joins frames from left to right: each but the first by its type and condition. Every visible column is
selected; if `unique`, a name that an earlier column has is left out. -/
def join (frames : List Frame) (types : List JoinType) (on : List String) (unique : Bool) :
    Except Error Frame := do
  if frames.length ≠ types.length + 1 ∨ types.length ≠ on.length then
    .error (.joinArity frames.length types.length on.length)
  match ← documents .join frames with
  | [] => .error (.emptyFrame .join)
  | left :: rest =>
    let fields := (Collected.addAll unique 1 {} (left :: rest)).fields
    let links := types.zipWith (fun type c => JoinLink.mk type (condition? c)) on
    return {
      document := some (.join { fields } left (links.zip rest))
      settings := firstSettings frames }

def unionFields (first : Fields) : Fields :=
  .ofList (first.visible.map fun e =>
    (e.2.outputName e.1, { Field.ofType e.2.type with customType := e.2.customType }))

def union (frames : List Frame) (types : List UnionType) : Except Error Frame := do
  if frames.length ≠ types.length + 1 then
    .error (.unionArity frames.length types.length)
  match ← documents .union frames with
  | [] => .error (.emptyFrame .union)
  | first :: rest =>
    return {
      document := some (.union { fields := unionFields first.fields } first (types.zip rest))
      settings := firstSettings frames }

end QueryTree.Frame
