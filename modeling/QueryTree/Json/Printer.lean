import QueryTree.Json.Basic
import QueryTree.Number.Shortest
import QueryTree.Text.Numeral
/-!
JSON text: compact, without spaces, or pretty, with two spaces of indentation a level.
-/

namespace QueryTree.Json

def escape (c : Char) : List Char :=
  match c with
  | '\x22' => ['\\', '\x22']
  | '\\' => ['\\', '\\']
  | '\x08' => ['\\', 'b']
  | '\x0c' => ['\\', 'f']
  | '\n' => ['\\', 'n']
  | '\r' => ['\\', 'r']
  | '\t' => ['\\', 't']
  | c =>
    if c.toNat < 0x20 then
      ['\\', 'u', '0', '0', Text.hexDigit (c.toNat / 16), Text.hexDigit (c.toNat % 16)]
    else [c]

def quote (s : String) : String :=
  "\"" ++ .ofList (s.toList.flatMap escape) ++ "\""

structure PositionalRange where
  least : Int
  bound : Int

def positional : PositionalRange :=
  ⟨-5, 16⟩

def zeros (n : Nat) : List Char :=
  List.replicate n '0'

def positionalText (digits : List Char) (e : Int) : List Char :=
  match e with
  | .negSucc n => '0' :: '.' :: (zeros n ++ digits)
  | .ofNat n =>
    let whole := digits.take (n + 1)
    let part := digits.drop (n + 1)
    whole ++ zeros (n + 1 - whole.length) ++ '.' :: (if part.isEmpty then ['0'] else part)

def exponentText (digits : List Char) (e : Int) : List Char :=
  let part := digits.drop 1
  let sign := if e < 0 then '-' else '+'
  digits.take 1 ++ (if part.isEmpty then [] else '.' :: part) ++ 'e' :: sign :: Nat.toDigits 10 e.natAbs

def magnitudeText (x : Binary64) : List Char :=
  if x.code = 0 then ['0', '.', '0']
  else
    let d := x.shortest
    let digits := Nat.toDigits 10 d.digits
    let e := d.exponent + digits.length - 1
    if positional.least ≤ e && e < positional.bound then positionalText digits e else exponentText digits e

def Number.text : Number → String
  | .natural n => toString n.toNat
  | .negative k => "-" ++ toString (k.val + 1)
  | .double x => .ofList ((if x.negative then ['-'] else []) ++ magnitudeText x)

mutual

def compact : Json → String
  | .null => "null"
  | .bool true => "true"
  | .bool false => "false"
  | .number n => n.text
  | .string s => quote s
  | .array [] => "[]"
  | .array (v :: vs) => "[" ++ compact v ++ compactItems vs ++ "]"
  | .object [] => "\x7b\x7d"
  | .object ((name, v) :: members) =>
    "\x7b" ++ quote name ++ ":" ++ compact v ++ compactMembers members ++ "\x7d"

def compactItems : List Json → String
  | [] => ""
  | v :: vs => "," ++ compact v ++ compactItems vs

def compactMembers : List (String × Json) → String
  | [] => ""
  | (name, v) :: members => "," ++ quote name ++ ":" ++ compact v ++ compactMembers members

end

def newline (level : Nat) : String :=
  "\n" ++ .ofList (List.replicate (2 * level) ' ')

mutual

def prettyAt (level : Nat) : Json → String
  | .array (v :: vs) => "[" ++ newline (level + 1) ++ prettyAt (level + 1) v ++ prettyItems level vs ++ "]"
  | .object ((name, v) :: members) =>
    "\x7b" ++ newline (level + 1) ++ quote name ++ ": " ++ prettyAt (level + 1) v ++ prettyMembers level members
      ++ "\x7d"
  | .array [] => "[]"
  | .object [] => "\x7b\x7d"
  | .null => "null"
  | .bool true => "true"
  | .bool false => "false"
  | .number n => n.text
  | .string s => quote s

def prettyItems (level : Nat) : List Json → String
  | [] => newline level
  | v :: vs => "," ++ newline (level + 1) ++ prettyAt (level + 1) v ++ prettyItems level vs

def prettyMembers (level : Nat) : List (String × Json) → String
  | [] => newline level
  | (name, v) :: members =>
    "," ++ newline (level + 1) ++ quote name ++ ": " ++ prettyAt (level + 1) v ++ prettyMembers level members

end

def pretty (v : Json) : String :=
  prettyAt 0 v

def display : Json → String
  | .string s => s
  | v => v.compact

end QueryTree.Json
