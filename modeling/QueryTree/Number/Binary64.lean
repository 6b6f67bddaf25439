/-!
Finite numbers of the 64-bit binary format, without machine arithmetic. Every such number is a whole
number of units of 2^-1074, so rounding, products and quotients are exact statements about naturals.
-/

namespace QueryTree

namespace Binary64

def binade : Nat :=
  0x10000000000000

def codeBound : Nat :=
  2047 * binade

end Binary64

structure Binary64 where
  negative : Bool
  code : Nat
  finite : code < Binary64.codeBound
deriving DecidableEq

namespace Binary64

def zero (negative : Bool) : Binary64 :=
  ⟨negative, 0, by decide⟩

def fraction (x : Binary64) : Nat :=
  x.code % binade

def significand (x : Binary64) : Nat :=
  if x.code < binade then x.code else binade + x.fraction

def scale (x : Binary64) : Nat :=
  x.code / binade - 1

def units (x : Binary64) : Nat :=
  x.significand * Nat.pow 2 x.scale

def unitsPerOne : Nat :=
  Nat.pow 2 1074

/-- The code of the number nearest to `num / den` units, a tie going to the even significand.
The step between neighbours is the power of two that leaves a quotient of at most 53 bits. -/
def nearestCode (num den : Nat) : Nat :=
  let scale := (num / den).log2 - 52
  let step := den * Nat.pow 2 scale
  let quotient := num / step
  let remainder := num % step
  let up := step < 2 * remainder || (2 * remainder == step && quotient % 2 == 1)
  scale * binade + if up then quotient + 1 else quotient

def nearest? (negative : Bool) (num den : Nat) : Option Binary64 :=
  if h : nearestCode num den < codeBound then some ⟨negative, nearestCode num den, h⟩ else none

def ofNat? (negative : Bool) (n : Nat) : Option Binary64 :=
  nearest? negative (n * unitsPerOne) 1

def maxPowerOfTen : Nat :=
  308

def powerOfTen (e : Nat) : Nat :=
  match ofNat? false (Nat.pow 10 e) with
  | some x => x.units
  | none => 0

def timesPowerOfTen? (x : Binary64) (e : Nat) : Option Binary64 :=
  if x.code = 0 then some x
  else if maxPowerOfTen < e then none
  else nearest? x.negative (x.units * powerOfTen e) unitsPerOne

def overLargestPower : Nat → Binary64 → Option Binary64
  | 0, x => some x
  | rounds + 1, x =>
    if x.code = 0 then some x
    else (nearest? x.negative (x.units * unitsPerOne) (powerOfTen maxPowerOfTen)).bind (overLargestPower rounds)

/-- Division by ten to the `e`, by at most ten to the 308 at a time and rounding after each step. -/
def overPowerOfTen? (x : Binary64) (e : Nat) : Option Binary64 := do
  let rounds := (e - 1) / maxPowerOfTen
  let y ← overLargestPower rounds x
  nearest? y.negative (y.units * unitsPerOne) (powerOfTen (e - rounds * maxPowerOfTen))

/-- The number read from a decimal `n` · 10^`e`: `n` is rounded, then scaled with one rounding a step. -/
def ofDecimal? (negative : Bool) (n : Nat) (e : Int) : Option Binary64 := do
  let x ← ofNat? negative n
  match e with
  | .ofNat e => x.timesPowerOfTen? e
  | .negSucc e => x.overPowerOfTen? (e + 1)

/-- The number nearest to `n` · 10^`e`, unless that is too large. A quotient by a power of ten with so many
digits that it lies below half a unit is not formed. -/
def nearestDecimal? (negative : Bool) (n : Nat) (e : Int) : Option Binary64 :=
  match e with
  | .ofNat e =>
    if n = 0 then some (zero negative)
    else if maxPowerOfTen < e then none
    else nearest? negative (n * Nat.pow 10 e * unitsPerOne) 1
  | .negSucc e =>
    if n.log2 + 1076 ≤ 3 * (e + 1) then some (zero negative)
    else nearest? negative (n * unitsPerOne) (Nat.pow 10 (e + 1))

end Binary64

end QueryTree
