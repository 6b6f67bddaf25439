import QueryTree.Number.Binary64
import QueryTree.Text.Numeral
/-!
The scalar values of TOML: strings in their four forms, and the words that stand for booleans, numbers,
dates and times. Numbers keep their exact values; dates and times are recognised and kept as they are written.
-/

namespace QueryTree.Toml

inductive Scalar where
  | string (s : String)
  | integer (n : Int)
  | bool (b : Bool)
  | decimal (negative : Bool) (n : Nat) (e : Int)
  | notFinite (word : String)
  | misspelt (word : String)
  | dateTime (text : String)
deriving DecidableEq

/-- Whether a number has a machine form: an integer in 128 bits, with or without a sign, or a finite float. -/
def Scalar.isRepresentable : Scalar → Bool
  | integer n => -n ≤ Nat.pow 2 127 && n < Nat.pow 2 128
  | decimal negative n e => (Binary64.nearestDecimal? negative n e).isSome
  | misspelt _ => false
  | _ => true

def isSpace (c : Char) : Bool :=
  c == ' ' || c == '\t'

def isPlain (c : Char) : Bool :=
  c == '\t' || (0x20 ≤ c.toNat && c.toNat ≠ 0x7F)

def afterLineEnd? : List Char → Option (List Char)
  | '\n' :: cs => some cs
  | '\r' :: '\n' :: cs => some cs
  | _ => none

def scalarChar? (n : Nat) : Option Char :=
  if h : n.isValidChar then some ⟨.ofNat n, by
    have : n < UInt32.size := by rcases h with h | h <;> simp only [UInt32.size] <;> omega
    simpa [UInt32.isValidChar, Nat.mod_eq_of_lt this] using h⟩
  else none

def escaped? (c : Char) : Option Char :=
  match c with
  | '\x22' => some '\x22'
  | '\\' => some '\\'
  | 'b' => some '\x08'
  | 'e' => some '\x1b'
  | 'f' => some '\x0c'
  | 'n' => some '\n'
  | 'r' => some '\r'
  | 't' => some '\t'
  | _ => none

def escape? : List Char → Option (Char × List Char)
  | 'x' :: cs => numeric 2 cs
  | 'u' :: cs => numeric 4 cs
  | 'U' :: cs => numeric 8 cs
  | c :: cs => (escaped? c).map fun e => (e, cs)
  | [] => none
where
  numeric (n : Nat) (cs : List Char) : Option (Char × List Char) := do
    let digits := cs.take n
    guard (digits.length == n)
    return (← scalarChar? (← Text.hexNumber? digits), cs.drop n)

def lineString (escapes : Bool) (mark : Char) (fuel : Nat) (cs : List Char) : Option (List Char × List Char) :=
  match fuel, cs with
  | fuel + 1, c :: cs =>
    if c = mark then some ([], cs)
    else if c = '\\' && escapes then do
      let (e, cs) ← escape? cs
      let (s, cs) ← lineString escapes mark fuel cs
      return (e :: s, cs)
    else if isPlain c then do
      let (s, cs) ← lineString escapes mark fuel cs
      return (c :: s, cs)
    else none
  | _, _ => none

def afterEmptyLines : List Char → List Char
  | '\r' :: '\n' :: cs => afterEmptyLines cs
  | c :: cs => if isSpace c || c == '\n' then afterEmptyLines cs else c :: cs
  | [] => []

def afterContinuation? (cs : List Char) : Option (List Char) :=
  (afterLineEnd? (cs.dropWhile isSpace)).map afterEmptyLines

/-- A quoted text over several lines, after its opening marks; its line ends stay as they are. Up to two marks
may stand inside it, also right before the three that close it. -/
def blockString (escapes : Bool) (mark : Char) (fuel : Nat) (cs : List Char) : Option (List Char × List Char) :=
  match fuel with
  | 0 => none
  | fuel + 1 =>
    let marks := (cs.takeWhile (· == mark)).length
    if 3 ≤ marks then
      if marks ≤ 5 then some (List.replicate (marks - 3) mark, cs.drop marks) else none
    else
      match cs with
      | '\r' :: '\n' :: cs => do
        let (s, cs) ← blockString escapes mark fuel cs
        return ('\r' :: '\n' :: s, cs)
      | '\\' :: cs =>
        if escapes then
          match afterContinuation? cs with
          | some cs => blockString escapes mark fuel cs
          | none => do
            let (e, cs) ← escape? cs
            let (s, cs) ← blockString escapes mark fuel cs
            return (e :: s, cs)
        else do
          let (s, cs) ← blockString escapes mark fuel cs
          return ('\\' :: s, cs)
      | c :: cs =>
        if isPlain c || c == '\n' then do
          let (s, cs) ← blockString escapes mark fuel cs
          return (c :: s, cs)
        else none
      | [] => none

def lineString? : List Char → Option (String × List Char)
  | '\x22' :: cs => (lineString true '\x22' (cs.length + 1) cs).map fun r => (.ofList r.1, r.2)
  | '\x27' :: cs => (lineString false '\x27' (cs.length + 1) cs).map fun r => (.ofList r.1, r.2)
  | _ => none

def blockString? (escapes : Bool) (mark : Char) (cs : List Char) : Option (String × List Char) :=
  let cs := (afterLineEnd? cs).getD cs
  (blockString escapes mark (cs.length + 1) cs).map fun r => (.ofList r.1, r.2)

def string? : List Char → Option (String × List Char)
  | '\x22' :: '\x22' :: '\x22' :: cs => blockString? true '\x22' cs
  | '\x27' :: '\x27' :: '\x27' :: cs => blockString? false '\x27' cs
  | cs => lineString? cs

def digits? (isDigit : Char → Bool) : List Char → Option (List Char)
  | [] => none
  | [c] => if isDigit c then some [c] else none
  | c :: '_' :: cs => if isDigit c then (digits? isDigit cs).map (c :: ·) else none
  | c :: cs => if isDigit c then (digits? isDigit cs).map (c :: ·) else none

def radixDigits? (radix : Nat) (cs : List Char) : Option Int := do
  let digits ← digits? (fun c => (Text.hexValue? c).any (· < radix)) cs
  return (digits.foldl (fun n c => radix * n + (Text.hexValue? c).getD 0) 0 : Nat)

def decimalDigits? (cs : List Char) : Option (List Char) := do
  let digits ← digits? Char.isDigit cs
  guard (digits.length == 1 || digits.head? != some '0')
  return digits

def withoutSign : List Char → List Char
  | '+' :: cs | '-' :: cs => cs
  | cs => cs

/-- The digits before the point of a decimal number. An underscore may stand between them and a sign, and then
they may start with zeros. -/
def wholeDigits? : List Char → Option (List Char)
  | '+' :: '_' :: cs | '-' :: '_' :: cs => digits? Char.isDigit cs
  | cs => decimalDigits? (withoutSign cs)

def integer? : List Char → Option Int
  | '0' :: 'x' :: cs => radixDigits? 16 cs
  | '0' :: 'o' :: cs => radixDigits? 8 cs
  | '0' :: 'b' :: cs => radixDigits? 2 cs
  | cs => do
    let n : Nat := Text.digitsValue 0 (← wholeDigits? cs)
    return if cs.head? == some '-' then -n else n

def isExponentMark (c : Char) : Bool :=
  c == 'e' || c == 'E'

def isHexDigit (c : Char) : Bool :=
  (Text.hexValue? c).isSome

def joinsDigits (digitBefore : Bool) : List Char → Bool
  | [] => true
  | '_' :: cs => digitBefore && cs.head?.any isHexDigit && joinsDigits false cs
  | c :: cs => joinsDigits (isHexDigit c) cs

/-- Whether a word is told apart as an integer before its digits are looked at: by its radix alone, or by an
underscore after its first digits. A sign counts as a digit here. -/
def isIntegerLike (cs : List Char) : Bool :=
  let word := withoutSign cs
  ["0x".toList, "0o".toList, "0b".toList].contains cs
    || (word.head? != some '0' && (word.dropWhile Char.isDigit).head? == some '_'
      && !word.any (fun c => c == '.' || isExponentMark c) && joinsDigits (word.length < cs.length) word)

def exponent? (cs : List Char) : Option Int := do
  let n : Nat := Text.digitsValue 0 (← digits? Char.isDigit (withoutSign cs))
  return if cs.head? == some '-' then -n else n

def float? (cs : List Char) : Option Scalar := do
  let word := withoutSign cs
  if word = "inf".toList || word = "nan".toList then return .notFinite (.ofList cs)
  let mantissa := cs.takeWhile fun c => !isExponentMark c
  let exponent := cs.drop mantissa.length
  let whole := mantissa.takeWhile (· != '.')
  let fraction := mantissa.drop whole.length
  guard (!fraction.isEmpty || !exponent.isEmpty)
  let whole ← wholeDigits? whole
  let fraction ← if fraction.isEmpty then some [] else digits? Char.isDigit (fraction.drop 1)
  let exponent ← if exponent.isEmpty then some 0 else exponent? (exponent.drop 1)
  return .decimal (cs.head? == some '-') (Text.digitsValue 0 (whole ++ fraction)) (exponent - fraction.length)

def fixed? (n : Nat) (cs : List Char) : Option (Nat × List Char) :=
  let digits := cs.take n
  if digits.length = n && digits.all Char.isDigit then some (Text.digitsValue 0 digits, cs.drop n) else none

def expect? (p : Char → Bool) : List Char → Option (List Char)
  | c :: cs => if p c then some cs else none
  | [] => none

def isLeapYear (y : Nat) : Bool :=
  (y % 4 == 0 && y % 100 != 0) || y % 400 == 0

def daysOfMonth (year month : Nat) : Nat :=
  if month = 2 then (if isLeapYear year then 29 else 28)
  else if [4, 6, 9, 11].contains month then 30 else 31

def afterDate? (cs : List Char) : Option (List Char) := do
  let (year, cs) ← fixed? 4 cs
  let (month, cs) ← fixed? 2 (← expect? (· == '-') cs)
  let (day, cs) ← fixed? 2 (← expect? (· == '-') cs)
  guard (1 ≤ month && month ≤ 12 && 1 ≤ day && day ≤ daysOfMonth year month)
  return cs

def afterFraction? : List Char → Option (List Char)
  | '.' :: cs => if (cs.takeWhile Char.isDigit).isEmpty then none else some (cs.dropWhile Char.isDigit)
  | cs => some cs

def afterTime? (cs : List Char) : Option (List Char) := do
  let (hour, cs) ← fixed? 2 cs
  let (minute, cs) ← fixed? 2 (← expect? (· == ':') cs)
  guard (hour < 24 && minute < 60)
  match cs with
  | ':' :: cs => do
    let (second, cs) ← fixed? 2 cs
    guard (second ≤ 60)
    afterFraction? cs
  | cs => some cs

def isOffset : List Char → Bool
  | [] | ['Z'] | ['z'] => true
  | '+' :: cs | '-' :: cs =>
    match fixed? 2 cs with
    | some (hour, ':' :: cs) => (fixed? 2 cs).any fun m => hour < 24 && m.1 < 60 && m.2.isEmpty
    | _ => false
  | _ => false

def isDateTime (cs : List Char) : Bool :=
  match afterDate? cs with
  | some [] => true
  | some (c :: rest) => (c == 'T' || c == 't' || c == ' ') && (afterTime? rest).any isOffset
  | none => (afterTime? cs).any List.isEmpty

def wordScalar? (cs : List Char) : Option Scalar :=
  if cs = "true".toList then some (.bool true)
  else if cs = "false".toList then some (.bool false)
  else
    match integer? cs, float? cs with
    | some n, _ => some (.integer n)
    | none, some x => some x
    | none, none =>
      if isIntegerLike cs then some (.misspelt (.ofList cs))
      else if isDateTime cs then some (.dateTime (.ofList cs))
      else none

def isWordChar (c : Char) : Bool :=
  !([' ', '\t', '\r', '\n', '=', ',', '[', ']', '\x7b', '\x7d', '#', '\x22', '\x27'].contains c)

def word (cs : List Char) : List Char :=
  let first := cs.takeWhile isWordChar
  match afterDate? first, cs.drop first.length with
  | some [], ' ' :: c :: rest =>
    if c.isDigit then first ++ ' ' :: (c :: rest).takeWhile isWordChar else first
  | _, _ => first

def scalar? (cs : List Char) : Option (Scalar × List Char) :=
  match cs with
  | '\x22' :: _ | '\x27' :: _ => (string? cs).map fun r => (.string r.1, r.2)
  | cs =>
    let w := word cs
    (wordScalar? w).map fun v => (v, cs.drop w.length)

end QueryTree.Toml
