import QueryTree.Entries
/-!
Files and directories as a value: reading, writing, and the ways in which they fail.
-/

namespace QueryTree

namespace Path

def split : List Char → List (List Char)
  | [] => [[]]
  | c :: cs =>
    match split cs with
    | part :: parts => if c = '/' then [] :: part :: parts else (c :: part) :: parts
    | [] => [[c]]

def steps (path : String) : List String :=
  (split path.toList).map .ofList

def maxStepSize : Nat :=
  255

def maxSize : Nat :=
  4095

def isUsable (path : String) : Bool :=
  !path.isEmpty && path.utf8ByteSize ≤ maxSize && !path.toList.contains '\x00'

/-- A directory or a file by the names that lead to it, last name first: from the working directory, or
from the root, which has an empty name. -/
abbrev Place := List String

def origin (path : String) : Place :=
  if path.toList.head? == some '/' then [""] else []

/-- The place one step on. Empty steps and `.` stay, and `..` goes back; nothing is above the root. -/
def Place.next (place : Place) (step : String) : Place :=
  if step = "" ∨ step = "." then place
  else if step ≠ ".." then step :: place
  else
    match place with
    | [] => [step]
    | last :: rest => if last = ".." then step :: place else if last = "" then place else rest

def Place.key (place : Place) : String :=
  "/".intercalate place.reverse

def parent (path : String) : String :=
  match (steps path).dropLast with
  | [] => "."
  | [""] => "/"
  | steps => "/".intercalate steps

end Path

inductive FileEntry where
  | file (content : ByteArray)
  | directory

def FileEntry.isDirectory : FileEntry → Bool
  | file _ => false
  | directory => true

/-- The entries by the keys of their places. The working directory, the root and what is above need none. -/
structure Files where
  entries : Entries FileEntry := []

namespace Files

inductive Error where
  | notFound
  | isDirectory
  | notText
  | cutShort
deriving DecidableEq

def Error.message : Error → String
  | notFound => "no such file or directory"
  | isDirectory => "is a directory"
  | notText => "not valid UTF-8"
  | cutShort => "no room for all of the text"

def empty : Files :=
  {}

def at? (fs : Files) (place : Path.Place) : Option FileEntry :=
  if place.all fun name => name = "" || name = ".." then some .directory else fs.entries.get? place.key

def isDirectory (fs : Files) (place : Path.Place) : Bool :=
  (fs.at? place).any FileEntry.isDirectory

def walk? (fs : Files) (place : Path.Place) : List String → Option Path.Place
  | [] => some place
  | step :: steps =>
    if fs.isDirectory place && step.utf8ByteSize ≤ Path.maxStepSize then walk? fs (place.next step) steps
    else none

def place? (fs : Files) (path : String) : Option Path.Place :=
  if Path.isUsable path then fs.walk? (Path.origin path) (Path.steps path) else none

def entry? (fs : Files) (path : String) : Option FileEntry :=
  (fs.place? path).bind fs.at?

def contains (fs : Files) (path : String) : Bool :=
  (fs.entry? path).isSome

def readBytes (fs : Files) (path : String) : Except Error ByteArray :=
  match fs.entry? path with
  | some (.file content) => .ok content
  | some .directory => .error .isDirectory
  | none => .error .notFound

def readText (fs : Files) (path : String) : Except Error String := do
  match String.fromUTF8? (← fs.readBytes path) with
  | some s => .ok s
  | none => .error .notText

def set (fs : Files) (place : Path.Place) (e : FileEntry) : Files :=
  { entries := fs.entries.insert place.key e }

inductive Room where
  | enough
  | bytes (n : Nat)

def Room.take : Room → ByteArray → ByteArray
  | enough, content => content
  | bytes n, content => content.extract 0 n

/-- A file is written into a directory that exists, over the file that is there. Opening the file empties it, so what a
disk without room leaves of both texts is the start of the new one. -/
def writeText (fs : Files) (room : Room) (path text : String) : Except Error Unit × Files :=
  match fs.place? path with
  | none => (.error .notFound, fs)
  | some place =>
    if fs.isDirectory place then (.error .isDirectory, fs)
    else
      let taken := room.take text.toUTF8
      (if taken.size < text.toUTF8.size then .error .cutShort else .ok (), fs.set place (.file taken))

def putFrom (fs : Files) (place : Path.Place) (e : FileEntry) : List String → Files
  | [] => fs.set place e
  | step :: steps =>
    let fs := if (fs.at? place).isSome then fs else fs.set place .directory
    putFrom fs (place.next step) e steps

def put (fs : Files) (path : String) (e : FileEntry) : Files :=
  fs.putFrom (Path.origin path) e (Path.steps path)

end Files

end QueryTree
