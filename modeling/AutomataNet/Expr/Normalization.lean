import AutomataNet.Variable.Registry
/-!
Normal form of expressions: arrays are compared only through their lengths and cells.

The equality of an array variable with an array value is replaced by a conjunction: the active
length of the array is the number of elements, and each element equals its cell. There is one cell
for each element, however long the array is at that time and however many cells it has.
-/

namespace AutomataNet

/-- Why an expression or a model has no normal form. -/
inductive NormalizationError where
  /-- An array is an operand of something that neither compares nor accesses it. -/
  | arrayOperand (op : Op)
  | multiDimensional (name : String) (dimensions : Nat)
  | computedElement
  | missingLength (array length : String)
  | missingCapacities (name : String)
  | unknownVariable (name : String)
  | notAnArray (name : String)
  /-- Not an array variable on one side and an array value on the other. -/
  | unsupportedComparison
  | inAutomaton (automaton : String) (cause : NormalizationError)
  | inProperty (property : String) (cause : NormalizationError)
deriving DecidableEq, Repr, Inhabited

namespace NormalizationError

/-- The failure itself, without the places it was found in. -/
def root : NormalizationError → NormalizationError
  | .inAutomaton _ e => e.root
  | .inProperty _ e => e.root
  | e => e

def message : NormalizationError → String
  | .arrayOperand op =>
    "array operands can only be used in comparisons, found one under operator " ++ op.name
  | .multiDimensional n d =>
    s!"comparing multi-dimensional arrays is unsupported ('{n}' has {d} dimensions)"
  | .computedElement => "array comparisons with computed element values are unsupported"
  | .missingLength a l => s!"length variable '{l}' of array '{a}' not found"
  | .missingCapacities n => s!"array variable '{n}' has no array info"
  | .unknownVariable n => s!"variable '{n}' not found"
  | .notAnArray n => s!"variable '{n}' is not an array"
  | .unsupportedComparison => "array equality requires an array variable and an array value"
  | .inAutomaton a e => s!"failed normalizing automaton '{a}': " ++ e.message
  | .inProperty p e => s!"failed normalizing property '{p}': " ++ e.message

end NormalizationError

/-! ## Comparison of an array -/

/-- `array = [e₀, …, eₙ]` over the cells: the length is the number of elements and `eᵢ` is the
`i`-th cell, as a conjunction nested to the left. -/
def comparison (array : String) (elements : List Expr) : Expr :=
  elements.zipIdx.foldl
    (fun conjunction (e, i) =>
      .conj conjunction (.equal e (.access (.var array) (.ofInt (Int64.ofNat i)))))
    (.equal (.var (lengthName array 1)) (.ofInt (Int64.ofNat elements.length)))

/-- The two sides of an array comparison, as far as they are found. -/
structure Sides where
  array : Option String := none
  elements : Option (List Expr) := none

namespace Sides

/-- The variable is an array that can be compared: it has one dimension, and a companion. -/
def checkArray (scope : Scope) (name : String) : Except NormalizationError Unit :=
  match scope.find? name with
  | none => .error (.unknownVariable name)
  | some v =>
    if !v.isArray then .error (.notAnArray name)
    else
      match v.capacities with
      | none => .error (.missingCapacities name)
      | some capacities =>
        if capacities.length ≠ 1 then .error (.multiDimensional name capacities.length)
        else if (scope.find? (lengthName name 1)).isNone then
          .error (.missingLength name (lengthName name 1))
        else .ok ()

/-- Goes through the operands; each side may be given once. -/
def collect (scope : Scope) (s : Sides) : List (String × Expr) → Except NormalizationError Sides
  | [] => .ok s
  | (_, .identifier name _) :: rest => do
    checkArray scope name
    if s.array.isSome then .error .unsupportedComparison
    else collect scope { s with array := some name } rest
  | (_, .arrayValue elements _) :: rest =>
    if s.elements.isSome then .error .unsupportedComparison
    else collect scope { s with elements := some elements } rest
  | _ :: _ => .error .unsupportedComparison

end Sides

/-- Replaces an equality that has an array among its operands. -/
def expandComparison (scope : Scope) (operands : List (String × Expr)) :
    Report NormalizationError Expr := do
  let sides ← Report.ofExcept (Sides.collect scope {} operands)
  match sides.array, sides.elements with
  | some array, some elements =>
    if elements.all (·.literal?.isSome) then do
      Report.note (.expandingComparison array elements.length)
      return comparison array elements
    else Report.fail .computedElement
  | _, _ => Report.fail .unsupportedComparison

/-! ## Expressions -/

namespace Expr

/-- The expression is an array as a whole. -/
def isArray (scope : Scope) : Expr → Bool
  | .arrayValue _ _ => true
  | .identifier name _ => (scope.find? name).any (·.isArray)
  | _ => false

/-- Some operand is an array, other than the one whose cell is accessed. -/
def hasArrayOperand (scope : Scope) (op : Op) (operands : List (String × Expr)) : Bool :=
  operands.any fun (role, e) => !(op == .arrayAccess && role == "exp") && e.isArray scope

mutual

/-- The normal form of an expression. Array values are left alone, and a replaced equality hands
on its comment. -/
def normalize (scope : Scope) : Expr → Report NormalizationError Expr
  | .literal v c => .ok (.literal v c)
  | .identifier name c => .ok (.identifier name c)
  | .arrayValue elements c => .ok (.arrayValue elements c)
  | .distribution name args c => do
    let args ← normalizeList scope args
    return .distribution name args c
  | .operator op operands c =>
    if hasArrayOperand scope op operands then
      if op = .eq then (·.withComment c) <$> expandComparison scope operands
      else .fail (.arrayOperand op)
    else do
      let operands ← normalizeOperands scope operands
      return .operator op operands c

def normalizeList (scope : Scope) : List Expr → Report NormalizationError (List Expr)
  | [] => .ok []
  | e :: es => do
    let e ← normalize scope e
    let es ← normalizeList scope es
    return e :: es

def normalizeOperands (scope : Scope) :
    List (String × Expr) → Report NormalizationError (List (String × Expr))
  | [] => .ok []
  | (role, e) :: es => do
    let e ← normalize scope e
    let es ← normalizeOperands scope es
    return (role, e) :: es

end

end Expr

end AutomataNet
