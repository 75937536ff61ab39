import AutomataNet.Decimal.Shortest
import AutomataNet.Json.Basic
/-!
Text of JSON values: compact (no blanks at all) and pretty (two blanks a level).
-/

namespace AutomataNet

/-! ## Numbers -/

/-- Which decimal exponents are written positionally. -/
structure RealLayout where
  leastPlain : Int
  greatestPlain : Int

/-- Doubles are positional from `0.00001` up to sixteen digits before the point, always with a
fraction; outside they have a signed exponent and no padding. -/
def Number.layout : RealLayout := ⟨-5, 15⟩

namespace RealLayout

/-- Digits with the point put after the first `exponent + 1` of them. -/
def plain (s : Decimal.Scientific) : String :=
  if s.exponent < 0 then
    "0." ++ String.ofList (List.replicate (-s.exponent - 1).toNat '0' ++ s.digits)
  else
    let n := s.exponent.toNat + 1
    let whole := s.digits.take n ++ List.replicate (n - s.digits.length) '0'
    let fraction := s.digits.drop n
    String.ofList whole ++ "." ++ (if fraction.isEmpty then "0" else String.ofList fraction)

def scientific (s : Decimal.Scientific) : String :=
  let fraction := s.digits.drop 1
  String.ofList (s.digits.take 1)
    ++ (if fraction.isEmpty then "" else "." ++ String.ofList fraction)
    ++ (if s.exponent < 0 then "e-" else "e+") ++ toString s.exponent.natAbs

def write (l : RealLayout) (s : Decimal.Scientific) : String :=
  if l.leastPlain ≤ s.exponent && s.exponent ≤ l.greatestPlain then plain s else scientific s

end RealLayout

/-- The sign bit. -/
def Number.isNegative (x : Float) : Bool := x.toBits ≥ 0x8000000000000000

/-- Text of a finite double. -/
def Number.realText (x : Float) : String :=
  let b := Decimal.Binary.ofBits x.toBits
  let magnitude := if b.mantissa = 0 then "0.0" else Number.layout.write (Decimal.shortest b)
  if Number.isNegative x then "-" ++ magnitude else magnitude

/-- JSON has no infinities and no NaN: these are written `null`. -/
def Number.text : Number → String
  | .int n => toString n
  | .real x => if x.isFinite then Number.realText x else "null"

/-! ## Strings -/

namespace Json

def hexDigit (n : Nat) : Char := if n < 10 then Char.ofNat (48 + n) else Char.ofNat (87 + n)

/-- How a character stands inside quotes. -/
def escape (c : Char) : List Char :=
  if c = '"' then ['\\', '"']
  else if c = '\\' then ['\\', '\\']
  else if c = '\n' then ['\\', 'n']
  else if c = '\r' then ['\\', 'r']
  else if c = '\t' then ['\\', 't']
  else if c.toNat = 8 then ['\\', 'b']
  else if c.toNat = 12 then ['\\', 'f']
  else if c.toNat < 32 then ['\\', 'u', '0', '0', hexDigit (c.toNat / 16), hexDigit (c.toNat % 16)]
  else [c]

def quote (s : String) : String := "\"" ++ String.ofList (s.toList.flatMap escape) ++ "\""

/-! ## Layouts -/

/-- How values are laid out. -/
inductive Layout where
  /-- No blanks at all. -/
  | compact
  /-- One entry a line, two blanks a level. -/
  | pretty

namespace Layout

def lineBreak : Layout → Nat → String
  | .compact, _ => ""
  | .pretty, level => "\n" ++ String.ofList (List.replicate (2 * level) ' ')

/-- Between the name of a field and its value. -/
def colon : Layout → String
  | .compact => ":"
  | .pretty => ": "

/-- Entries between brackets, each on its own line one level deeper. -/
def block (l : Layout) (level : Nat) (left right : String) : List String → String
  | [] => left ++ right
  | es =>
    left ++ l.lineBreak (level + 1) ++ String.intercalate ("," ++ l.lineBreak (level + 1)) es
      ++ l.lineBreak level ++ right

end Layout

/-! ## Values -/

mutual

/-- Text of a value; `level` is the depth it stands at. -/
def write (l : Layout) (level : Nat) : Json → String
  | .null => "null"
  | .bool b => if b then "true" else "false"
  | .num n => n.text
  | .str s => quote s
  | .arr items => l.block level "[" "]" (writeItems l (level + 1) items)
  | .obj fields => l.block level "\x7b" "\x7d" (writeFields l (level + 1) fields)

def writeItems (l : Layout) (level : Nat) : List Json → List String
  | [] => []
  | j :: js => write l level j :: writeItems l level js

def writeFields (l : Layout) (level : Nat) : List (String × Json) → List String
  | [] => []
  | (k, j) :: fs => (quote k ++ l.colon ++ write l level j) :: writeFields l level fs

end

def compact (j : Json) : String := j.write .compact 0

def pretty (j : Json) : String := j.write .pretty 0

end Json

end AutomataNet
