/-!
Decimal numerals of 64-bit naturals, and hexadecimal digits. Reading a numeral allows a leading plus sign and
leading zeros; a value of 2^64 or more has none.
-/

namespace QueryTree.Text

def digitValue (c : Char) : Nat :=
  c.toNat - '0'.toNat

def digitsValue (acc : Nat) (cs : List Char) : Nat :=
  cs.foldl (fun n c => 10 * n + digitValue c) acc

def naturalOfDigits? (cs : List Char) : Option UInt64 :=
  if cs.isEmpty || !cs.all Char.isDigit then none
  else
    let n := digitsValue 0 cs
    if n < UInt64.size then some (.ofNat n) else none

def natural? (s : String) : Option UInt64 :=
  match s.toList with
  | '+' :: cs => naturalOfDigits? cs
  | cs => naturalOfDigits? cs

def naturalText (n : UInt64) : String :=
  toString n.toNat

def hexValue? (c : Char) : Option Nat :=
  if c.isDigit then some (digitValue c)
  else if 'a' ≤ c && c ≤ 'f' then some (c.toNat - 'a'.toNat + 10)
  else if 'A' ≤ c && c ≤ 'F' then some (c.toNat - 'A'.toNat + 10)
  else none

def hexNumber? (cs : List Char) : Option Nat :=
  cs.foldlM (fun n c => (hexValue? c).map (16 * n + ·)) 0

def hexDigit (n : Nat) : Char :=
  if n < 10 then .ofNat ('0'.toNat + n) else .ofNat ('a'.toNat + n - 10)

end QueryTree.Text
