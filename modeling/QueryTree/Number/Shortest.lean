import QueryTree.Number.Binary64
/-!
The shortest decimal that reads back as a given number. Among the decimals of the least number of
digits that lie in the interval rounding to the number, the nearest one is taken.
-/

namespace QueryTree.Binary64

structure Decimal where
  digits : Nat
  exponent : Int
deriving DecidableEq

structure Interval where
  low : Nat
  high : Nat
  closed : Bool

/-- Half the way to each neighbour. Below a power of two the neighbours are twice as dense. -/
def interval (x : Binary64) : Interval :=
  let quarter := Nat.pow 2 x.scale
  let half := 2 * quarter
  let halfBelow := if x.fraction = 0 && 0 < x.scale then quarter else half
  ⟨4 * x.units - halfBelow, 4 * x.units + half, x.significand % 2 == 0⟩

/-- Decimals are compared as whole numbers of 10^-341, finer than 17 digits of the least number. -/
def fineness : Nat :=
  341

def finePerOne : Nat :=
  Nat.pow 10 fineness

def Interval.contains (i : Interval) (numerator : Nat) : Bool :=
  let n := numerator * (4 * unitsPerOne)
  let low := i.low * finePerOne
  let high := i.high * finePerOne
  if i.closed then low ≤ n && n ≤ high else low < n && n < high

/-- The multiple of `grid` in the interval that is nearest to the magnitude of `x`, if there is one;
of two equally near the even multiple. -/
def onGrid? (x : Binary64) (grid : Nat) : Option Nat :=
  let value := 4 * x.units * finePerOne
  let step := grid * (4 * unitsPerOne)
  let below := value / step
  let above := below + 1
  let inBelow := x.interval.contains (below * grid)
  let inAbove := x.interval.contains (above * grid)
  let toBelow := value - below * step
  let toAbove := above * step - value
  let belowNearer := toBelow < toAbove || (toBelow == toAbove && below % 2 == 0)
  if inBelow && (!inAbove || belowNearer) then some below
  else if inAbove then some above
  else none

def Decimal.reduce (fuel : Nat) (d : Decimal) : Decimal :=
  match fuel with
  | 0 => d
  | fuel + 1 =>
    if d.digits % 10 = 0 && d.digits ≠ 0 then reduce fuel ⟨d.digits / 10, d.exponent + 1⟩ else d

def leadingPosition (x : Binary64) : Nat :=
  (Nat.toDigits 10 (x.units * finePerOne / unitsPerOne)).length - 1

/-- The shortest decimal that reads back as the magnitude of `x`; 17 digits always do. -/
def shortest (x : Binary64) : Decimal :=
  let p := x.leadingPosition
  let found := (List.range 17).findSome? fun n =>
    (x.onGrid? (Nat.pow 10 (p - n))).map fun digits => Decimal.mk digits ((p - n : Nat) - (fineness : Int))
  (found.getD ⟨0, 0⟩).reduce 17

end QueryTree.Binary64
