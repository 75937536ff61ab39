/-!
What can go wrong when variables are declared.
-/

namespace AutomataNet

/-- Why a declaration is refused. -/
inductive RegistryError where
  | duplicate (name : String)
  | unknown (name : String)
  | notAnArray (name : String)
  /-- The type of the array has `declared` levels, `given` capacities were given. -/
  | dimensionMismatch (name : String) (declared given : Nat)
  /-- The initial value is longer than the capacity; dimensions count from 1. -/
  | capacityExceeded (name : String) (dimension length capacity : Nat)
deriving DecidableEq, Repr, Inhabited

namespace RegistryError

def message : RegistryError → String
  | .duplicate n => s!"variable '{n}' is already declared"
  | .unknown n => s!"variable '{n}' is not declared"
  | .notAnArray n => s!"variable '{n}' is not an array"
  | .dimensionMismatch n declared given =>
    s!"array '{n}' has {declared} dimensions, but {given} capacities were given"
  | .capacityExceeded n dimension length capacity =>
    s!"array '{n}' is initialized with {length} elements along dimension {dimension}, "
      ++ s!"but its capacity is {capacity}"

end RegistryError

end AutomataNet
