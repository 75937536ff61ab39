/-!
Shortest decimal text of a binary64 number.

A positive double stands for the interval of reals that round to it. `shortest` looks for the
coarsest decimal grid with a point in that interval and takes the point nearest to the double.
All arithmetic is exact, on naturals.
-/

namespace AutomataNet.Decimal

/-- The magnitude of a finite double: `mantissa * 2 ^ exponent`. -/
structure Binary where
  mantissa : Nat
  exponent : Int
  /-- The double just below is only half a step away (the mantissa is a power of two). -/
  narrowBelow : Bool
deriving Repr, DecidableEq

/-- Reads exponent and fraction fields; the sign is not looked at. -/
def Binary.ofBits (bits : UInt64) : Binary :=
  let hidden : Nat := 0x10000000000000
  let fraction : Nat := bits.toNat % hidden
  let field : Nat := bits.toNat / hidden % 0x800
  if field = 0 then ⟨fraction, -1074, false⟩
  else ⟨hidden + fraction, (field : Int) - 1075, fraction = 0 && 1 < field⟩

/-- Decimal digits, most significant first, read as `d.ddd * 10 ^ exponent`. -/
structure Scientific where
  digits : List Char
  exponent : Int
deriving Repr, DecidableEq

/-- A power with a base of 2 or 10; a negative exponent counts as zero, so `power b e` and
`power b (-e)` are the two sides of a fraction. -/
def power (base : Nat) (exponent : Int) : Nat := Nat.pow base exponent.toNat

/-- `4 * value`, `4 * (value + half a step)` and `4 * (value - half a step below)` over a common
denominator. -/
structure Bracket where
  value : Nat
  upper : Nat
  lower : Nat
  den : Nat
  closed : Bool

def Binary.bracket (b : Binary) : Bracket :=
  let up := power 2 b.exponent
  { value := 4 * b.mantissa * up
    upper := (4 * b.mantissa + 2) * up
    lower := (4 * b.mantissa - if b.narrowBelow then 1 else 2) * up
    den := 4 * power 2 (-b.exponent)
    closed := b.mantissa % 2 = 0 }

/-- The least `k` with `num / den < 10 ^ k`, for positive `num` and `den`. -/
def magnitude (num den : Nat) : Int :=
  let guess : Int := (Nat.toDigits 10 num).length - (Nat.toDigits 10 den).length
  if num * power 10 (-guess) < den * power 10 guess then guess else guess + 1

/-- The point of the grid of step `10 ^ scale` that lies in the bracket and nearest to its value;
of two equally near points the even one. -/
def Bracket.gridPoint? (b : Bracket) (scale : Int) : Option Nat :=
  let up := power 10 (-scale)
  let unit := b.den * power 10 scale
  let value := b.value * up
  let inside (c : Nat) : Bool :=
    let x := c * unit
    if b.closed then b.lower * up ≤ x && x ≤ b.upper * up else b.lower * up < x && x < b.upper * up
  let below := value / unit
  let above := below + 1
  match inside below, inside above with
  | true, true =>
    let toBelow := value - below * unit
    let toAbove := above * unit - value
    if toBelow < toAbove || (toBelow = toAbove && below % 2 = 0) then some below else some above
  | true, false => some below
  | false, true => some above
  | false, false => none

def stripZeros (digits : List Char) : List Char :=
  match (digits.reverse.dropWhile (· = '0')).reverse with
  | [] => ['0']
  | ds => ds

/-- The fewest digits that read back as the given positive magnitude, and of those the nearest.
Seventeen digits always suffice. -/
def shortest (b : Binary) : Scientific :=
  let br := b.bracket
  let k := magnitude br.value br.den
  let found := (List.range 17).findSome? fun n =>
    let scale : Int := k - (n + 1 : Nat)
    (br.gridPoint? scale).map fun c =>
      let text := Nat.toDigits 10 c
      (⟨stripZeros text, text.length - 1 + scale⟩ : Scientific)
  found.getD ⟨['0'], 0⟩

end AutomataNet.Decimal
