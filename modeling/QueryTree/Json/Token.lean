import QueryTree.Json.Basic
import QueryTree.Text.Numeral
/-!
The tokens of JSON text. Splitting text into tokens never fails: where no token starts, the last token
is `invalid`, which no rule of the grammar accepts.
-/

namespace QueryTree.Json

inductive Token where
  | openObject
  | closeObject
  | openArray
  | closeArray
  | colon
  | comma
  | null
  | bool (b : Bool)
  | number (n : Number)
  | string (s : String)
  | invalid
deriving DecidableEq

namespace Token

def isSpace (c : Char) : Bool :=
  c == ' ' || c == '\t' || c == '\n' || c == '\r'

def unit? (a b c d : Char) : Option Nat :=
  Text.hexNumber? [a, b, c, d]

def isHighSurrogate (u : Nat) : Bool :=
  0xD800 ≤ u && u < 0xDC00

def isLowSurrogate (u : Nat) : Bool :=
  0xDC00 ≤ u && u < 0xE000

def surrogatePair (high low : Nat) : Char :=
  .ofNat (0x10000 + (high - 0xD800) * 0x400 + (low - 0xDC00))

def escaped? (c : Char) : Option Char :=
  match c with
  | '\x22' => some '\x22'
  | '\\' => some '\\'
  | '/' => some '/'
  | 'b' => some '\x08'
  | 'f' => some '\x0c'
  | 'n' => some '\n'
  | 'r' => some '\r'
  | 't' => some '\t'
  | _ => none

/-- The text of a string up to its closing quote, and what follows the quote; `met` holds the characters so
far, last first. -/
def string? (met : List Char) : List Char → Option (List Char × List Char)
  | [] => none
  | '\x22' :: rest => some (met.reverse, rest)
  | '\\' :: 'u' :: a :: b :: c :: d :: rest =>
    match unit? a b c d, rest with
    | none, _ => none
    | some u, '\\' :: 'u' :: a :: b :: c :: d :: rest' =>
      if isHighSurrogate u then
        match unit? a b c d with
        | some v => if isLowSurrogate v then string? (surrogatePair u v :: met) rest' else none
        | none => none
      else if isLowSurrogate u then none
      else string? (.ofNat u :: met) ('\\' :: 'u' :: a :: b :: c :: d :: rest')
    | some u, rest => if isHighSurrogate u || isLowSurrogate u then none else string? (.ofNat u :: met) rest
  | '\\' :: c :: rest =>
    match escaped? c with
    | some e => string? (e :: met) rest
    | none => none
  | c :: rest => if c.toNat < 0x20 || c == '\\' then none else string? (c :: met) rest

def fitDigits (n : Nat) : List Char → Nat × List Char
  | [] => (n, [])
  | c :: cs =>
    let m := 10 * n + Text.digitValue c
    if m < UInt64.size then fitDigits m cs else (n, c :: cs)

/-- An integer without fraction and exponent. One that needs more than 64 bits is a binary number, and so
is negative zero. -/
def integer? (negative : Bool) (digits : List Char) : Option Number :=
  let (n, left) := fitDigits 0 digits
  if !left.isEmpty then (Binary64.ofDecimal? negative n left.length).map .double
  else if !negative then some (.natural (.ofNat n))
  else if h : n - 1 < negativeCount ∧ 0 < n then some (.negative ⟨n - 1, h.1⟩)
  else (Binary64.ofDecimal? negative n 0).map .double

/-- A number with fraction or exponent. Only the leading digits that fit 64 bits count; integer digits
past those raise the exponent. -/
def decimal? (negative : Bool) (digits fraction : List Char) (exponent : Int) : Option Number :=
  let (n, left) := fitDigits 0 digits
  let (n, leftFraction) := fitDigits n fraction
  let places : Int := (left.length : Int) - (fraction.length - leftFraction.length : Nat)
  (Binary64.ofDecimal? negative n (places + exponent)).map .double

def fraction? : List Char → Option (List Char × List Char)
  | '.' :: cs =>
    let digits := cs.takeWhile Char.isDigit
    if digits.isEmpty then none else some (digits, cs.dropWhile Char.isDigit)
  | cs => some ([], cs)

def exponentDigits? (negative : Bool) (cs : List Char) : Option (Option Int × List Char) :=
  let digits := cs.takeWhile Char.isDigit
  if digits.isEmpty then none
  else
    let e : Int := Text.digitsValue 0 digits
    some (some (if negative then -e else e), cs.dropWhile Char.isDigit)

def exponent? : List Char → Option (Option Int × List Char)
  | 'e' :: cs | 'E' :: cs =>
    match cs with
    | '+' :: cs => exponentDigits? false cs
    | '-' :: cs => exponentDigits? true cs
    | cs => exponentDigits? false cs
  | cs => some (none, cs)

def unsigned? (negative : Bool) (cs : List Char) : Option (Number × List Char) := do
  let digits := cs.takeWhile Char.isDigit
  guard (!digits.isEmpty && (digits.length == 1 || digits.head? != some '0'))
  let (fraction, rest) ← fraction? (cs.dropWhile Char.isDigit)
  let (exponent, rest) ← exponent? rest
  let n ← if fraction.isEmpty && exponent.isNone then integer? negative digits
    else decimal? negative digits fraction (exponent.getD 0)
  return (n, rest)

def number? : List Char → Option (Number × List Char)
  | '-' :: cs => unsigned? true cs
  | cs => unsigned? false cs

def next? : List Char → Option (Token × List Char)
  | '\x7b' :: cs => some (openObject, cs)
  | '\x7d' :: cs => some (closeObject, cs)
  | '[' :: cs => some (openArray, cs)
  | ']' :: cs => some (closeArray, cs)
  | ':' :: cs => some (colon, cs)
  | ',' :: cs => some (comma, cs)
  | 'n' :: 'u' :: 'l' :: 'l' :: cs => some (null, cs)
  | 't' :: 'r' :: 'u' :: 'e' :: cs => some (bool true, cs)
  | 'f' :: 'a' :: 'l' :: 's' :: 'e' :: cs => some (bool false, cs)
  | '\x22' :: cs => (string? [] cs).map fun r => (string (.ofList r.1), r.2)
  | cs => (number? cs).map fun r => (number r.1, r.2)

def split (fuel : Nat) (cs : List Char) : List Token :=
  match fuel with
  | 0 => []
  | fuel + 1 =>
    match cs.dropWhile isSpace with
    | [] => []
    | c :: cs =>
      match next? (c :: cs) with
      | some (t, rest) => t :: split fuel rest
      | none => [invalid]

end Token

def tokens (s : String) : List Token :=
  let cs := s.toList
  Token.split (cs.length + 1) cs

end QueryTree.Json
