import QueryTree.ColumnSheet
import QueryTree.CommandLine.Help
import QueryTree.Frame.Render
import QueryTree.QueryFile
import QueryTree.Settings.File
import QueryTree.Sql.Layout
/-!
Running commands on a value of the file system.
-/

namespace QueryTree.CommandLine

structure Outcome where
  exitCode : UInt8 := 0
  output : String := ""
  errors : String := ""
  files : Files

namespace Outcome

def printed (files : Files) (output : String) : Outcome :=
  { output, files }

def failed (files : Files) (message : String) : Outcome :=
  { exitCode := 1, errors := message ++ "\n", files }

end Outcome

structure Environment where
  settingsFile : Option String := none
  configDirectory : Option String := none

def loadFailure (file : String) (e : QueryFile.Error) : String :=
  "Error loading '" ++ file ++ "': " ++ e.message

def verboseLines (file : String) (label : Option String) (f : Frame) : List String :=
  ["-- qframe rendered SQL", "-- Source: " ++ file]
    ++ label.toList.map (fun l => "-- Label: " ++ l)
    ++ f.rootColumns.toList.map (fun c => "-- Columns: " ++ ", ".intercalate c.aliases)
    ++ [""]

def validate (files : Files) (file : String) (label : Option String) : Outcome :=
  match QueryFile.load files file label with
  | .error e => .failed files ("Validation error: " ++ e.message)
  | .ok d =>
    .printed files (lines ["OK: " ++ file ++ " is valid (" ++ d.kind.name ++ " source, " ++ toString d.fields.size
      ++ " field(s))"])

def importColumns (files : Files) (file : String) (output label : Option String) : Outcome :=
  match ColumnSheet.documentOfFile files file with
  | .error e => .failed files ("Error importing '" ++ file ++ "': " ++ e.message)
  | .ok d =>
    match output with
    | none => .printed files (lines [d.toJson.pretty])
    | some path =>
      match QueryFile.save files path d label with
      | .ok files => .printed files (lines ["Wrote " ++ toString d.fields.size ++ " field(s) to " ++ path])
      | .error e => .failed files ("Error writing '" ++ path ++ "': " ++ e.message)

section

variable [Sql.Formatter]

def render (settings : Settings) (files : Files) (file : String) (label : Option String) (raw verbose : Bool) :
    Outcome :=
  let settings := if raw then { settings with layout := { settings.layout with enabled := false } } else settings
  match Frame.load files file label with
  | .error e => .failed files (loadFailure file e)
  | .ok f =>
    let f := f.withSettings settings
    .printed files (lines ((if verbose then verboseLines file label f else []) ++ [f.sqlText]))

def ddl (settings : Settings) (files : Files) (file table : String) (schema label : Option String) : Outcome :=
  match Frame.load files file label with
  | .error e => .failed files (loadFailure file e)
  | .ok f =>
    let f := f.withSettings settings
    match f.createTableSql table schema, f.insertIntoSql table schema with
    | .ok create, .ok insert => .printed files (lines [create ++ ";", "", insert ++ ";"])
    | .error e, _ | _, .error e => .failed files ("Error: " ++ e.message)

def run (env : Environment) (files : Files) (c : Command) : Outcome :=
  match Settings.load files env.settingsFile env.configDirectory with
  | .error e => .failed files ("Error loading settings: " ++ e.message)
  | .ok settings =>
    match c with
    | .render file label raw verbose => render settings files file label raw verbose
    | .validate file label => validate files file label
    | .ddl file table schema label => ddl settings files file table schema label
    | .importColumns file output label => importColumns files file output label

def answer (env : Environment) (files : Files) (args : List String) : Outcome :=
  match parse args with
  | .error e => { exitCode := 2, errors := lines ["error: " ++ e.message], files }
  | .ok .version => .printed files (lines [programName ++ " " ++ version])
  | .ok (.help topic detailed) => .printed files (topic.text detailed)
  | .ok (.run c) => run env files c

end

def Command.paths : Command → List String
  | render file .. | validate file _ | ddl file .. => [file]
  | .importColumns file output _ => file :: output.toList

def paths (env : Environment) (args : List String) : List String :=
  match parse args with
  | .ok (.run c) =>
    env.settingsFile.toList ++ Settings.localFile :: env.configDirectory.toList.map Settings.userFile ++ c.paths
  | _ => []

end QueryTree.CommandLine
