import QueryTree.Text.Mark
import QueryTree.Toml.Table
/-!
Reading TOML documents: a list of lines, each blank, a header, or a key with its value.
-/

namespace QueryTree.Toml

/-- The deepest nesting of lists and inline tables, and the largest number of names in a key. -/
def maxDepth : Nat :=
  80

def skipSpaces (cs : List Char) : List Char :=
  cs.dropWhile isSpace

def skipComment? : List Char → Option (List Char)
  | '#' :: cs =>
    let rest := cs.dropWhile isPlain
    if rest.isEmpty || (afterLineEnd? rest).isSome then some rest else none
  | cs => some cs

def endLine? (cs : List Char) : Option (List Char) := do
  let cs ← skipComment? (skipSpaces cs)
  if cs.isEmpty then some cs else afterLineEnd? cs

def skipLines? (fuel : Nat) (cs : List Char) : Option (List Char) :=
  match fuel with
  | 0 => none
  | fuel + 1 => do
    let cs ← skipComment? (skipSpaces cs)
    match afterLineEnd? cs with
    | some cs => skipLines? fuel cs
    | none => some cs

def isBareKeyChar (c : Char) : Bool :=
  c.isAlphanum || c == '_' || c == '-'

def simpleKey? (cs : List Char) : Option (String × List Char) :=
  match cs with
  | '\x22' :: _ | '\x27' :: _ => lineString? cs
  | cs =>
    let name := cs.takeWhile isBareKeyChar
    if name.isEmpty then none else some (.ofList name, cs.drop name.length)

def names? (room : Nat) (cs : List Char) : Option ((List String × String) × List Char) :=
  match room with
  | 0 => none
  | room + 1 => do
    let (name, cs) ← simpleKey? (skipSpaces cs)
    match skipSpaces cs with
    | '.' :: cs => do
      let ((path, last), cs) ← names? room cs
      return ((name :: path, last), cs)
    | cs => some (([], name), cs)

def key? (cs : List Char) : Option ((List String × String) × List Char) :=
  names? maxDepth cs

mutual

def value? (room fuel : Nat) (cs : List Char) : Option (Value × List Char) :=
  match fuel with
  | 0 => none
  | fuel + 1 =>
    match cs, room with
    | '[' :: _, 0 | '\x7b' :: _, 0 => none
    | '[' :: cs, room + 1 => (items? room fuel cs).map fun r => (.list r.1, r.2)
    | '\x7b' :: cs, room + 1 => (members? room fuel [] cs).map fun r => (.table (Node.toValues r.1), r.2)
    | cs, _ => (scalar? cs).map fun r => (.scalar r.1, r.2)

def items? (room fuel : Nat) (cs : List Char) : Option (List Value × List Char) :=
  match fuel with
  | 0 => none
  | fuel + 1 => do
    match ← skipLines? (cs.length + 1) cs with
    | ']' :: cs => some ([], cs)
    | cs =>
      let (v, cs) ← value? room fuel cs
      match ← skipLines? (cs.length + 1) cs with
      | ',' :: cs => do
        let (vs, cs) ← items? room fuel cs
        return (v :: vs, cs)
      | ']' :: cs => some ([v], cs)
      | _ => none

/-- The entries of an inline table up to its closing brace, added to `es`. Lines may end anywhere but within
a key. -/
def members? (room fuel : Nat) (es : Node.Table) (cs : List Char) : Option (Node.Table × List Char) :=
  match fuel with
  | 0 => none
  | fuel + 1 => do
    match ← skipLines? (cs.length + 1) cs with
    | '\x7d' :: cs => some (es, cs)
    | cs =>
      let ((path, name), cs) ← key? cs
      match ← skipLines? (cs.length + 1) cs with
      | '=' :: cs =>
        let (v, cs) ← value? room fuel (← skipLines? (cs.length + 1) cs)
        let es ← Node.assign? path name v es
        match ← skipLines? (cs.length + 1) cs with
        | ',' :: cs => members? room fuel es cs
        | '\x7d' :: cs => some (es, cs)
        | _ => none
      | _ => none

end

structure Draft where
  root : Node.Table := []
  present : List String := []

def assignment? (d : Draft) (cs : List Char) : Option (Draft × List Char) := do
  let ((path, name), cs) ← key? cs
  match cs with
  | '=' :: cs =>
    let cs := skipSpaces cs
    let (v, cs) ← value? maxDepth (cs.length + 1) cs
    let root ← Node.throughHeaders? (Node.assign? path name v) d.present d.root
    return ({ d with root }, cs)
  | _ => none

def header? (open? : String → Node.Table → Option Node.Table) (close : List Char) (d : Draft) (cs : List Char) :
    Option (Draft × List Char) := do
  let ((path, name), cs) ← key? cs
  guard (cs.take close.length == close)
  let root ← Node.throughHeaders? (open? name) path d.root
  return (⟨root, path ++ [name]⟩, cs.drop close.length)

def line? (d : Draft) (cs : List Char) : Option (Draft × List Char) :=
  match skipSpaces cs with
  | '[' :: '[' :: cs => header? Node.openElement? [']', ']'] d cs
  | '[' :: cs => header? Node.openTable? [']'] d cs
  | '#' :: cs => some (d, '#' :: cs)
  | cs => if cs.isEmpty || (afterLineEnd? cs).isSome then some (d, cs) else assignment? d cs

def lines? (fuel : Nat) (d : Draft) (cs : List Char) : Option Draft :=
  match fuel, cs with
  | _, [] => some d
  | 0, _ => none
  | fuel + 1, cs => do
    let (d, cs) ← line? d cs
    lines? fuel d (← endLine? cs)

def parse? (s : String) : Option (Entries Value) := do
  let cs := Text.withoutMark s.toList
  let d ← lines? (cs.length + 1) {} cs
  return Node.toValues d.root

end QueryTree.Toml
