import QueryTree.Files
import QueryTree.Settings.Basic
import QueryTree.Toml.Reader
/-!
Settings files. What a file leaves out has its default, and names that mean nothing are passed over, though the
numbers under them must have a machine form. A group of settings is a table, or a list of its values in order;
a date or time is a group without settings.
-/

namespace QueryTree.Settings

open Toml (Value)

inductive Error where
  | notFound (path : String)
  | unreadable (e : Files.Error)
  | notSettings
deriving DecidableEq

def Error.message : Error → String
  | notFound path => "Config file not found: " ++ path
  | unreadable e => "Failed to read config file: " ++ e.message
  | notSettings => "Failed to parse config file: " ++ "not valid settings"

def bool? : Value → Option Bool
  | .scalar (.bool b) => some b
  | _ => none

def text? : Value → Option String
  | .scalar (.string s) => some s
  | _ => none

def indent? : Value → Option UInt8
  | .scalar (.integer n) => if 0 ≤ n ∧ n < 256 then some (.ofNat n.toNat) else none
  | _ => none

def setting? {α : Type} (read? : Value → Option α) (default : α) (group : Value) (place : Nat) (name : String) :
    Option α :=
  let v := match group with
    | .table entries => Entries.get? entries name
    | .list items => items[place]?
    | .scalar _ => none
  match v with
  | some v => read? v
  | none => some default

/-- Whether a value can be read as a group of settings with these names. Items of a list past the last setting
are not looked at. -/
def isGroup (names : List String) : Value → Bool
  | .table entries => entries.all fun e => names.contains e.1 || e.2.isRepresentable
  | .list _ | .scalar (.dateTime _) => true
  | .scalar _ => false

def layout? (v : Value) : Option LayoutSettings := do
  guard (isGroup ["enabled", "uppercase", "indent"] v)
  let default : LayoutSettings := {}
  return {
    enabled := ← setting? bool? default.enabled v 0 "enabled"
    uppercase := ← setting? bool? default.uppercase v 1 "uppercase"
    indent := ← setting? indent? default.indent v 2 "indent" }

def types? (v : Value) : Option CastTypes := do
  guard (isGroup ["dim", "num"] v)
  let default : CastTypes := {}
  return {
    dimension := ← setting? text? default.dimension v 0 "dim"
    numeric := ← setting? text? default.numeric v 1 "num" }

def ofEntries? (entries : Entries Value) : Option Settings := do
  let root := Value.table entries
  guard (isGroup ["format", "types"] root)
  return {
    layout := ← setting? layout? {} root 0 "format"
    types := ← setting? types? {} root 1 "types" }

def ofText? (s : String) : Option Settings := do
  ofEntries? (← Toml.parse? s)

def ofFile (fs : Files) (path : String) : Except Error Settings := do
  if !fs.contains path then .error (.notFound path)
  let text ← (fs.readText path).mapError .unreadable
  match ofText? text with
  | some s => .ok s
  | none => .error .notSettings

def environmentVariable : String :=
  "QFRAME_CONFIG"

def localFile : String :=
  "qframe.toml"

def userFile (configDirectory : String) : String :=
  configDirectory ++ "/qframe/config.toml"

/-- The settings of the named file if one is named, else of the first file that exists: the local one, then
the user's. Without a file they are the defaults. -/
def load (fs : Files) (named configDirectory : Option String) : Except Error Settings :=
  match named with
  | some path => ofFile fs path
  | none =>
    if fs.contains localFile then ofFile fs localFile
    else
      match (configDirectory.map userFile).filter fs.contains with
      | some path => ofFile fs path
      | none => .ok {}

end QueryTree.Settings
