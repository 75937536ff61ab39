/-!
Doubles from decimals.

A decimal `significand * 10 ^ exponent` is read in double arithmetic: the significand becomes a
double first, and that is then multiplied or divided by a power of ten. Each step rounds, so for
long significands the result need not be the double nearest to the decimal: sixteen nines after
the point are read as one.
-/

namespace AutomataNet.Decimal

/-- The exponent of the largest power of ten that is a double. -/
def maxPower : Nat := 308

/-- The double nearest to `10 ^ n`. -/
def powerOfTen (n : Nat) : Float := Float.ofScientific 1 false n

/-- Divides by `10 ^ n`, in two steps if one power does not suffice. Nothing is left of a 64-bit
number after two full steps. -/
def scaleDown (x : Float) (n : Nat) : Float :=
  if n ≤ maxPower then x / powerOfTen n
  else if n ≤ 2 * maxPower then x / powerOfTen maxPower / powerOfTen (n - maxPower)
  else 0.0

/-- Multiplies by `10 ^ n`; `none` when that is out of range. -/
def scaleUp? (x : Float) (n : Nat) : Option Float :=
  if n ≤ maxPower then
    let y := x * powerOfTen n
    if y.isInf then none else some y
  else if x == 0.0 then some x
  else none

/-- The double that a decimal with a 64-bit significand is read as, or `none` when it is out of
range. Numbers far too small become zero. -/
def scaled? (significand : Nat) (exponent : Int) : Option Float :=
  let x := Float.ofNat significand
  if exponent < 0 then some (scaleDown x exponent.natAbs) else scaleUp? x exponent.toNat

end AutomataNet.Decimal
