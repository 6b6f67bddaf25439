import QueryTree.Frame.Basic
/-!
Editing frames. An edit of an empty frame is skipped with a notice, and so is an edit that does not apply
to unions; a key that names no field is skipped with a notice of its own.
-/

namespace QueryTree.Frame

inductive UnionRule where
  | allowed
  | skipped
deriving DecidableEq

def edit (f : Frame) (op : Operation) (rule : UnionRule) (g : Document → Document × List Notice) : Frame :=
  match f.document with
  | none => f.notify [.emptyFrame op]
  | some d =>
    if d.isUnion && rule = .skipped then f.notify [.unionSourced op]
    else
      let (d, ns) := g d
      { f with document := some d }.notify ns

def editBlock (f : Frame) (op : Operation) (rule : UnionRule) (g : Block → Block) : Frame :=
  f.edit op rule fun d => (d.mapBlock g, [])

def editFields (f : Frame) (op : Operation) (rule : UnionRule) (g : Fields → Fields × List String) : Frame :=
  f.edit op rule fun d =>
    let (fs, missing) := g d.fields
    (d.mapFields fun _ => fs, missing.map (.unknownField op))

def changeFields (changes : List (String × (Field → Field))) (fs : Fields) : Fields × List String :=
  (changes.foldl (fun fs c => fs.modify c.1 c.2) fs, (changes.map Prod.fst).filter fun key => !fs.contains key)

def removeFields : List String → Fields → Fields × List String
  | [], fs => (fs, [])
  | key :: keys, fs =>
    if fs.contains key then removeFields keys (fs.erase key)
    else
      let (fs, missing) := removeFields keys fs
      (fs, key :: missing)

def rename (f : Frame) (names : List (String × String)) : Frame :=
  f.edit .rename .allowed fun d =>
    (d.mapFields fun fs => (changeFields (names.map fun n => (n.1, (·.withAlias n.2))) fs).1, [])

def remove (f : Frame) (keys : List String) : Frame :=
  f.editFields .remove .allowed (removeFields keys)

def computed (type : FieldType) (groupBy : Option GroupBy) (name expression : String) : Field :=
  { (Field.ofType type).withAlias name |>.withExpression expression with groupBy }

def assign (f : Frame) (type : FieldType) (groupBy : Option GroupBy) (fields : List (String × String)) :
    Except Error Frame :=
  let checked := match groupBy.bind GroupBy.aggregation? with
    | some a => checkAllAggregable a (fields.map fun (n : String × String) => (n.1, type))
    | none => .ok ()
  match checked with
  | .error e => .error (.invalid e)
  | .ok () =>
    .ok (f.editFields .assign .skipped fun fs =>
      (fields.foldl (fun fs n => fs.insert n.1 (computed type groupBy n.1 n.2)) fs, []))

def groupBy (f : Frame) (keys : List String) : Except Error Frame :=
  if f.document.any Document.isUnion then .error (.unionSourced .groupBy)
  else .ok (f.editFields .groupBy .skipped (changeFields (keys.map fun key => (key, (·.withGroupBy .group)))))

def pick (f : Frame) (keys : List String) : Frame :=
  { f with picked := keys }

def pickedTypes (f : Frame) : List (String × FieldType) :=
  match f.document with
  | some d =>
    if d.isUnion then []
    else f.picked.filterMap fun key => (d.fields.get? key).map fun field => (key, field.type)
  | none => []

def aggregate (f : Frame) (a : Aggregation) : Except Error Frame :=
  match checkAllAggregable a f.pickedTypes with
  | .error e => .error (.invalid e)
  | .ok () =>
    .ok (f.editFields .aggregate .skipped
      (changeFields (f.picked.map fun key => (key, (·.withGroupBy (.aggregate a))))))

def orderBy (f : Frame) (keys : List String) (ascending : List Bool) : Except Error Frame :=
  if keys.length ≠ ascending.length then .error (.orderArity keys.length ascending.length)
  else
    .ok (f.editFields .orderBy .allowed
      (changeFields (keys.zipWith (fun key b => (key, (·.withOrderBy (.ofAscending b)))) ascending)))

def distinct (f : Frame) : Frame :=
  f.editBlock .distinct .skipped fun b => { b with distinct := true }

def limit (f : Frame) (n : UInt64) : Frame :=
  f.editBlock .limit .allowed fun b => { b with limit := some n }

inductive IfExists where
  | append
  | replace
deriving DecidableEq

inductive Connective where
  | and
  | or
deriving DecidableEq

def Connective.word : Connective → String
  | and => "and"
  | or => "or"

/-- A condition set, or appended to one that is not empty. -/
def combine (old : Option String) (condition : String) (mode : IfExists) (c : Connective) : String :=
  match old, mode with
  | some s, .append => if s.isEmpty then condition else s ++ " " ++ c.word ++ " " ++ condition
  | _, _ => condition

def query (f : Frame) (condition : String) (mode : IfExists := .append) (c : Connective := .and) : Frame :=
  f.editBlock .filter .skipped fun b => { b with filter := some (combine b.filter condition mode c) }

def filter (f : Frame) (condition : String) : Frame :=
  f.query condition

def having (f : Frame) (condition : String) (mode : IfExists := .append) (c : Connective := .and) : Frame :=
  f.editBlock .having .skipped fun b => { b with having := some (combine b.having condition mode c) }

def columnKey (query column : String) : String :=
  query ++ "." ++ column

def selectFields (inner : Fields) : List String → Fields → Fields × List Notice
  | [], fs => (fs, [])
  | key :: keys, fs =>
    match inner.get? key with
    | none =>
      let (fs, ns) := selectFields inner keys fs
      (fs, .unknownField .select key :: ns)
    | some field =>
      if field.isVisible then
        let name := field.outputName key
        selectFields inner keys (fs.insert (columnKey Check.subqueryKey name) (field.projected name))
      else
        let (fs, ns) := selectFields inner keys fs
        (fs, .hiddenField .select key :: ns)

def select (f : Frame) (keys : List String) : Frame :=
  let g := f.edit .select .allowed fun d =>
    let (fields, ns) := selectFields d.fields keys .empty
    (.subquery { fields } d, ns)
  if f.isEmpty then g else { g with picked := [] }

end QueryTree.Frame
