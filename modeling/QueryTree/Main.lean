import QueryTree.CommandLine.Run
/-!
The program: looks at the files that its arguments name, runs the command on what it found, and writes the
files that the command changed.
-/

namespace QueryTree.CommandLine

/-- The system's number for reading a directory as a file. A path that leads through a file has another. -/
def isADirectory : UInt32 :=
  21

/-- What stands at a path; what is there and cannot be read counts as a directory. -/
def probe (path : String) : IO (Option FileEntry) := do
  try
    return some (.file (← IO.FS.readBinFile path))
  catch
    | .noFileOrDirectory .. => return none
    | .inappropriateType _ code _ => return if code = isADirectory then some .directory else none
    | _ => return some .directory

def addPath (files : Files) (path : String) : IO Files := do
  match ← probe path with
  | some e => return files.put path e
  | none =>
    let parent := Path.parent path
    match ← probe parent with
    | some .directory => return files.put parent .directory
    | _ => return files

def writeChange (before after : Files) (path : String) : IO Unit := do
  match before.entry? path, after.entry? path with
  | some (.file old), some (.file content) => if old != content then IO.FS.writeBinFile path content
  | _, some (.file content) => IO.FS.writeBinFile path content
  | _, _ => return ()

def configDirectory : IO (Option String) := do
  match ← IO.getEnv "XDG_CONFIG_HOME" with
  | some d => if d.startsWith "/" then return some d
  | none => pure ()
  return (← IO.getEnv "HOME").map (· ++ "/.config")

def environment : IO Environment := do
  return { settingsFile := ← IO.getEnv Settings.environmentVariable, configDirectory := ← configDirectory }

end QueryTree.CommandLine

open QueryTree CommandLine in
def main (args : List String) : IO UInt32 := do
  let env ← environment
  let paths := paths env args
  let files ← paths.foldlM addPath Files.empty
  let outcome := answer env files args
  for path in paths do
    writeChange files outcome.files path
  IO.print outcome.output
  IO.eprint outcome.errors
  return outcome.exitCode.toUInt32
