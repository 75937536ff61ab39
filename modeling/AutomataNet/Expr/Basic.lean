import AutomataNet.Expr.Operator
/-!
Expressions: immutable trees whose nodes may carry a comment. Comments are kept for the reader of
a model and play no part when expressions are compared.
-/

namespace AutomataNet

/-! ## Literal values -/

/-- Mathematical constants that no number denotes exactly. -/
inductive Constant where
  | euler
  | pi
deriving DecidableEq, Repr, Inhabited

namespace Constant

def symbol : Constant → String
  | .euler => "e"
  | .pi => "π"

def ofSymbol? (s : String) : Option Constant :=
  if s = "e" then some .euler else if s = "π" then some .pi else none

end Constant

/-- The bits of a double without the sign. -/
def magnitudeBits (x : Float) : Nat := x.toBits.toNat % 0x8000000000000000

/-- The exponent field is all ones and the fraction is not zero. -/
def isNaNBits (magnitude : Nat) : Bool := 0x7FF0000000000000 < magnitude

/-- Equality of reals as literals: both zeros are equal, and a NaN equals any other. -/
def sameReal (x y : Float) : Bool :=
  let a := magnitudeBits x
  let b := magnitudeBits y
  x.toBits == y.toBits || (a == 0 && b == 0) || (isNaNBits a && isNaNBits b)

/-- A literal. Integers have 64 bits. -/
inductive Value where
  | bool (b : Bool)
  | int (n : Int64)
  | real (x : Float)
  | constant (c : Constant)
deriving Inhabited

/-- Equality of literals; an integer never equals a real. -/
def Value.same : Value → Value → Bool
  | .bool a, .bool b => a == b
  | .int a, .int b => a == b
  | .real a, .real b => sameReal a b
  | .constant a, .constant b => a == b
  | _, _ => false

/-! ## Expressions -/

/-- An expression; every node has an optional comment. -/
inductive Expr where
  | literal (value : Value) (comment : Option String)
  /-- A constant or variable. -/
  | identifier (name : String) (comment : Option String)
  /-- An operator with its operands in order, each under the role it plays. -/
  | operator (op : Op) (operands : List (String × Expr)) (comment : Option String)
  | arrayValue (elements : List Expr) (comment : Option String)
  /-- A sample from a probability distribution. -/
  | distribution (name : String) (args : List Expr) (comment : Option String)
deriving Inhabited

namespace Expr

def comment : Expr → Option String
  | .literal _ c => c
  | .identifier _ c => c
  | .operator _ _ c => c
  | .arrayValue _ c => c
  | .distribution _ _ c => c

/-- Replaces the comment of the root. -/
def withComment (c : Option String) : Expr → Expr
  | .literal v _ => .literal v c
  | .identifier n _ => .identifier n c
  | .operator op operands _ => .operator op operands c
  | .arrayValue elements _ => .arrayValue elements c
  | .distribution n args _ => .distribution n args c

/-! Nodes without a comment. -/

def lit (v : Value) : Expr := .literal v none

def ofInt (n : Int64) : Expr := lit (.int n)

def var (name : String) : Expr := .identifier name none

def binary (op : Op) (left right : Expr) : Expr :=
  .operator op [("left", left), ("right", right)] none

def equal (left right : Expr) : Expr := binary .eq left right

def conj (left right : Expr) : Expr := binary .and left right

def disj (left right : Expr) : Expr := binary .or left right

def neg (e : Expr) : Expr := .operator .not [("exp", e)] none

/-- The cell of an array. -/
def access (array index : Expr) : Expr :=
  .operator .arrayAccess [("exp", array), ("index", index)] none

/-! Looking at the root. -/

def literal? : Expr → Option Value
  | .literal v _ => some v
  | _ => none

def identifier? : Expr → Option String
  | .identifier n _ => some n
  | _ => none

def isArrayValue : Expr → Bool
  | .arrayValue _ _ => true
  | _ => false

/-- The operands of the root, none if it is not an operator. -/
def operands : Expr → List (String × Expr)
  | .operator _ operands _ => operands
  | _ => []

/-- The first operand with the given role. -/
def operand? (e : Expr) (role : String) : Option Expr := e.operands.lookup role

/-- The expression is the literal `true`. -/
def isTrue : Expr → Bool
  | .literal (.bool true) _ => true
  | _ => false

/-! ## Equality -/

mutual

/-- Equality up to comments. -/
def same : Expr → Expr → Bool
  | .literal v _, .literal w _ => v.same w
  | .identifier n _, .identifier m _ => n == m
  | .operator op xs _, .operator op' ys _ => op == op' && sameOperands xs ys
  | .arrayValue xs _, .arrayValue ys _ => sameList xs ys
  | .distribution n xs _, .distribution m ys _ => n == m && sameList xs ys
  | _, _ => false

def sameList : List Expr → List Expr → Bool
  | [], [] => true
  | x :: xs, y :: ys => same x y && sameList xs ys
  | _, _ => false

def sameOperands : List (String × Expr) → List (String × Expr) → Bool
  | [], [] => true
  | (r, x) :: xs, (s, y) :: ys => r == s && same x y && sameOperands xs ys
  | _, _ => false

end

instance : BEq Expr := ⟨same⟩

end Expr

end AutomataNet
