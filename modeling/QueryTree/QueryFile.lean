import QueryTree.Files
import QueryTree.Frame.Basic
import QueryTree.Json.Reader
/-!
Files of query documents. A file holds one document, or an object of documents by label; storing under a
label keeps the other labels, and their order.
-/

namespace QueryTree.QueryFile

inductive Error where
  | notFound (path : String)
  | access (e : Files.Error)
  | notJson
  | labelNotFound (path label : String)
  | notAnObject (path : String)
  | invalid (e : Fault)
deriving DecidableEq

def Error.message : Error → String
  | notFound path => "Query file not found: " ++ path
  | access e => "Failed to access query file: " ++ e.message
  | notJson => "Failed to parse query file: " ++ "not valid JSON"
  | labelNotFound path label => "Label '" ++ label ++ "' not found in " ++ path
  | notAnObject path => "Query file " ++ path ++ " does not hold a JSON object"
  | invalid e => e.message

def labelsIn (path : String) : Json → Except Error Json.Members
  | .object labels => .ok labels
  | _ => .error (.notAnObject path)

def valueIn (path : String) (content : Json) : Option String → Except Error Json
  | none => .ok content
  | some label => do
    match (← labelsIn path content).get? label with
    | some v => .ok v
    | none => .error (.labelNotFound path label)

/-- A step on the files: its outcome, and the files after it, whatever the outcome is. -/
abbrev Action (α : Type) := ExceptT Error (StateM Files) α

namespace Action

def run {α : Type} (a : Action α) (fs : Files) : Except Error α × Files :=
  StateT.run (ExceptT.run a) fs

def readText (path : String) : Action String := do
  ofExcept (((← get).readText path).mapError .access)

def writeText (room : Files.Room) (path text : String) : Action Unit := do
  let (outcome, fs) := (← get).writeText room path text
  set fs
  ofExcept (outcome.mapError .access)

def readJson (path : String) : Action Json := do
  match Json.parse? (← readText path) with
  | some v => return v
  | none => throw .notJson

def loadValue (path : String) (label : Option String) : Action Json := do
  if !(← get).contains path then throw (.notFound path)
  ofExcept (valueIn path (← readJson path) label)

def contentWith (path : String) (v : Json) : Option String → Action Json
  | none => return v
  | some label => do
    let labels ← if (← get).contains path then ofExcept (labelsIn path (← readJson path)) else pure []
    return .object (labels.insert label v)

def saveValue (room : Files.Room) (path : String) (v : Json) (label : Option String) : Action Unit := do
  let content ← contentWith path v label
  writeText room path content.pretty

end Action

def loadValue (fs : Files) (path : String) (label : Option String) : Except Error Json :=
  ((Action.loadValue path label).run fs).1

def saveValue (fs : Files) (path : String) (v : Json) (label : Option String) : Except Error Files :=
  match (Action.saveValue .enough path v label).run fs with
  | (.ok (), fs) => .ok fs
  | (.error e, _) => .error e

def load (fs : Files) (path : String) (label : Option String) : Except Error Document := do
  (Document.ofJson (← loadValue fs path label)).mapError .invalid

def save (fs : Files) (path : String) (d : Document) (label : Option String) : Except Error Files :=
  saveValue fs path d.toJson label

end QueryTree.QueryFile

namespace QueryTree.Frame

def load (fs : Files) (path : String) (label : Option String) : Except QueryFile.Error Frame := do
  (ofJson (← QueryFile.loadValue fs path label)).mapError .invalid

def save (f : Frame) (fs : Files) (path : String) (label : Option String) : Except QueryFile.Error Files :=
  QueryFile.saveValue fs path f.toJson label

end QueryTree.Frame
