import QueryTree.Entries
/-!
The arguments of the command line. A command takes one file and options; an option is given once, by a long
or a short name, with its value attached or in the next argument. After `--` no argument is an option.
-/

namespace QueryTree.CommandLine

structure Switch where
  long : String
  short : Option Char := none
  value : Option String := none
  about : String
  choices : List (String × String) := []
  usual : Option String := none
  mayBeEmpty : Bool := true
deriving DecidableEq

inductive CommandName where
  | render
  | validate
  | ddl
  | importColumns
deriving DecidableEq

namespace CommandName

def all : List CommandName :=
  [render, validate, ddl, importColumns]

def name : CommandName → String
  | render => "render"
  | validate => "validate"
  | ddl => "ddl"
  | importColumns => "import"

def ofName? (s : String) : Option CommandName :=
  all.find? fun c => c.name == s

def about : CommandName → String
  | render => "Render a stored query document to SQL"
  | validate => "Validate a stored query document without rendering it"
  | ddl => "Print CREATE TABLE and INSERT statements for a query's output"
  | importColumns => "Build a query document from a CSV of column metadata"

def fileAbout : CommandName → String
  | importColumns => "Path to the columns CSV"
  | _ => "Path to the JSON query file"

def labelSwitch (about : String) : Switch :=
  { long := "label", short := some 'l', value := some "LABEL", about }

def rawSwitch : Switch :=
  { long := "raw", about := "Skip the reformat pass and print single-line SQL" }

def formatSwitch : Switch :=
  { long := "output", short := some 'o', value := some "OUTPUT"
    about := "Output format"
    choices := [("sql", "Output SQL only"), ("verbose", "Output SQL with comments")]
    usual := some "sql" }

def tableSwitch : Switch :=
  { long := "table", short := some 't', value := some "TABLE", about := "Target table name" }

def schemaSwitch : Switch :=
  { long := "schema", short := some 's', value := some "SCHEMA", about := "Target schema" }

def outputSwitch : Switch :=
  { long := "output", short := some 'o', value := some "OUTPUT"
    about := "Write the document here instead of stdout"
    mayBeEmpty := false }

def storedLabel : Switch :=
  labelSwitch "Label of the query inside a shared file"

def switches : CommandName → List Switch
  | render => [storedLabel, rawSwitch, formatSwitch]
  | validate => [storedLabel]
  | ddl => [tableSwitch, schemaSwitch, storedLabel]
  | importColumns => [outputSwitch, labelSwitch "Store under this label in the output file"]

def required : CommandName → List Switch
  | ddl => [tableSwitch]
  | _ => []

end CommandName

inductive Command where
  | render (file : String) (label : Option String) (raw verbose : Bool)
  | validate (file : String) (label : Option String)
  | ddl (file table : String) (schema label : Option String)
  | importColumns (file : String) (output label : Option String)
deriving DecidableEq

inductive Topic where
  | program
  | help
  | command (name : CommandName)
deriving DecidableEq

inductive Request where
  | run (c : Command)
  | help (topic : Topic) (detailed : Bool)
  | version
deriving DecidableEq

inductive UsageError where
  | noCommand
  | unknownCommand (argument : String)
  | unexpected (argument : String)
  | missing (name : String)
  | invalidValue (name value : String)
  | repeated (name : String)
deriving DecidableEq

def UsageError.message : UsageError → String
  | noCommand => "a command is required"
  | unknownCommand argument => "unknown command '" ++ argument ++ "'"
  | unexpected argument => "unexpected argument '" ++ argument ++ "'"
  | missing name => "a value is required for " ++ name
  | invalidValue name value => "invalid value '" ++ value ++ "' for " ++ name
  | repeated name => name ++ " is given more than once"

structure Given where
  file : Option String := none
  values : Entries String := []

namespace Given

def set (g : Given) (s : Switch) (value : String) : Except UsageError Given :=
  if g.values.contains s.long then .error (.repeated s.long)
  else if s.value.isSome && !s.choices.isEmpty && !(s.choices.map Prod.fst).contains value then
    .error (.invalidValue s.long value)
  else if value.isEmpty && !s.mayBeEmpty then .error (.missing s.long)
  else .ok { g with values := g.values.insert s.long value }

def setFile (g : Given) (file : String) : Except UsageError Given :=
  if g.file.isSome then .error (.unexpected file)
  else if file.isEmpty then .error (.missing "FILE")
  else .ok { g with file := some file }

def value? (g : Given) (s : Switch) : Option String :=
  g.values.get? s.long

end Given

inductive Mark where
  | help (detailed : Bool)
  | endOfOptions
  | given (s : Switch) (value : String)
  | awaiting (s : Switch)
  | unknown
deriving DecidableEq

def splitLong (cs : List Char) : String × Option String :=
  let name := cs.takeWhile (· != '=')
  match cs.drop name.length with
  | '=' :: value => (.ofList name, some (.ofList value))
  | _ => (.ofList name, none)

def longMark (switches : List Switch) (cs : List Char) : Mark :=
  let (name, value) := splitLong cs
  match switches.find? (fun s => s.long == name), value with
  | none, none => if name == "help" then .help true else .unknown
  | none, some _ => .unknown
  | some s, some value => if s.value.isSome then .given s value else .unknown
  | some s, none => if s.value.isSome then .awaiting s else .given s ""

def shortMark (switches : List Switch) (c : Char) (cs : List Char) : Mark :=
  if c = 'h' then .help false
  else
    match switches.find? (fun s => s.short == some c), cs with
    | none, _ => .unknown
    | some s, [] => .awaiting s
    | some s, '=' :: value => .given s (.ofList value)
    | some s, value => .given s (.ofList value)

def mark? (switches : List Switch) (argument : String) : Option Mark :=
  match argument.toList with
  | ['-', '-'] => some .endOfOptions
  | '-' :: '-' :: cs => some (longMark switches cs)
  | '-' :: c :: cs => some (shortMark switches c cs)
  | _ => none

def readFiles (g : Given) : List String → Except UsageError Given
  | [] => .ok g
  | a :: rest => do readFiles (← g.setFile a) rest

inductive Reading where
  | complete (g : Given)
  | help (detailed : Bool)

def readArguments (switches : List Switch) (awaited : Option Switch) (g : Given) :
    List String → Except UsageError Reading
  | [] =>
    match awaited with
    | some s => .error (.missing s.long)
    | none => .ok (.complete g)
  | a :: rest =>
    match mark? switches a, awaited with
    | some _, some s => .error (.missing s.long)
    | none, some s => do readArguments switches none (← g.set s a) rest
    | none, none => do readArguments switches none (← g.setFile a) rest
    | some (.help detailed), none => .ok (.help detailed)
    | some .endOfOptions, none => (readFiles g rest).map .complete
    | some (.given s value), none => do readArguments switches none (← g.set s value) rest
    | some (.awaiting s), none => readArguments switches (some s) g rest
    | some .unknown, none => .error (.unexpected a)

def Given.command (g : Given) (name : CommandName) : Except UsageError Command := do
  match name.required.find? fun s => (g.value? s).isNone with
  | some s => .error (.missing s.long)
  | none => .ok ()
  match g.file with
  | none => .error (.missing "FILE")
  | some file =>
    let label := g.value? CommandName.storedLabel
    return match name with
      | .render =>
        .render file label (g.value? CommandName.rawSwitch).isSome
          (g.value? CommandName.formatSwitch == some "verbose")
      | .validate => .validate file label
      | .ddl => .ddl file ((g.value? CommandName.tableSwitch).getD "") (g.value? CommandName.schemaSwitch) label
      | .importColumns => .importColumns file (g.value? CommandName.outputSwitch) label

def readCommand (name : CommandName) (args : List String) : Except UsageError Request := do
  match ← readArguments name.switches none {} args with
  | .complete g => return .run (← g.command name)
  | .help detailed => return .help (.command name) detailed

def parse : List String → Except UsageError Request
  | [] => .error .noCommand
  | ["help"] => .ok (.help .program true)
  | ["help", topic] =>
    match CommandName.ofName? topic with
    | some name => .ok (.help (.command name) true)
    | none => if topic == "help" then .ok (.help .help true) else .error (.unknownCommand topic)
  | a :: rest =>
    match CommandName.ofName? a, mark? [] a with
    | some name, _ => readCommand name rest
    | none, some (.help detailed) => .ok (.help .program detailed)
    | none, some _ =>
      if a == "--version" || a.toList.take 2 == ['-', 'V'] then .ok .version else .error (.unexpected a)
    | none, none => .error (.unknownCommand a)

end QueryTree.CommandLine
