import AutomataNet.Variable.Type
/-!
Variables and the registry that holds them in the order of declaration, with an index of their
names. That the two agree is part of a registry, so each operation says why it keeps them in step.

An array has a backing store with a fixed capacity along each dimension. How much of it is in use
is tracked by companion variables, one a dimension, which the registry declares together with the
capacities.
-/

namespace AutomataNet

/-! ## Variables -/

/-- A variable declaration. -/
structure Variable where
  name : String
  type : VarType
  transient : Bool := false
  /-- If missing, any value of the type. -/
  initial : Option Expr := none
  comment : Option String := none
  /-- Capacity of an array along each dimension, outermost first. It is not part of a model file. -/
  capacities : Option (List Nat) := none
deriving BEq, Inhabited

namespace Variable

def isArray (v : Variable) : Bool := v.type.isArray

def sized (capacities : List Nat) (v : Variable) : Variable :=
  { v with capacities := some capacities }

def record : Record Variable where
  name := "Variable"
  fields :=
    .cons (.required "name" .string) <|
    .cons (.required "type" VarType.codec) <|
    .cons (.flag "transient") <|
    .cons (.optional "initial-value" .expr) <|
    .cons .comment .nil
  toRow v := (v.name, v.type, v.transient, v.initial, v.comment, ())
  ofRow := fun (name, type, transient, initial, comment, ()) =>
    { name, type, transient, initial, comment }

def codec : Codec Variable := record.codec

end Variable

/-- The name of the variable that tracks the length of an array along a dimension, counted
from 1. -/
def lengthName (array : String) (dimension : Nat) : String := s!"{array}_length_{dimension}"

/-! ## Lengths of initial values -/

namespace Expr

/-- The elements of an array value. -/
def elements : Expr → List Expr
  | .arrayValue elements _ => elements
  | _ => []

end Expr

/-- The longest array value on each of the first levels of nesting, for expressions that stand on
the outermost one. -/
def levelLengths : Nat → List Expr → List Nat
  | 0, _ => []
  | n + 1, level =>
    level.foldl (fun longest e => max longest e.elements.length) 0 ::
      levelLengths n (level.flatMap Expr.elements)

/-- The length of an initial value along each dimension. -/
def initialLengths (initial : Option Expr) (dimensions : Nat) : List Nat :=
  levelLengths dimensions initial.toList

/-! ## Places of names -/

/-- Where names stand in a list. -/
structure NameIndex where
  get? : String → Option Nat

namespace NameIndex

def empty : NameIndex := ⟨fun _ => none⟩

/-- Sets the place of a name. -/
def insert (name : String) (place : Nat) (index : NameIndex) : NameIndex :=
  ⟨fun other => if other = name then some place else index.get? other⟩

/-- The index has exactly the names of the list, each with its place. -/
def InStep (index : NameIndex) (names : List String) : Prop :=
  ∀ name place, index.get? name = some place ↔ names[place]? = some name

theorem inStep_empty : empty.InStep [] := by
  intro name place
  simp [empty]

theorem InStep.insert {index : NameIndex} {names : List String} {name : String}
    (h : index.InStep names) (fresh : index.get? name = none) :
    (index.insert name names.length).InStep (names ++ [name]) := by
  intro other place
  have habsent : names[place]? ≠ some name := fun hp => by
    rw [← h, fresh] at hp
    cases hp
  rw [NameIndex.insert, List.getElem?_append]
  by_cases hother : other = name
  · subst hother
    grind
  · have := h other place
    grind

end NameIndex

/-! ## Registries -/

/-- The variables of a scope, in the order of declaration, with an index of their names. No two
variables have the same name. -/
structure Registry where
  vars : List Variable
  index : NameIndex
  inStep : index.InStep (vars.map (·.name))

namespace Registry

def empty : Registry := ⟨[], .empty, NameIndex.inStep_empty⟩

instance : EmptyCollection Registry := ⟨empty⟩

instance : Inhabited Registry := ⟨empty⟩

/-- The index says nothing that the variables do not say. -/
instance : BEq Registry := ⟨fun r s => r.vars == s.vars⟩

def contains (r : Registry) (name : String) : Bool := (r.index.get? name).isSome

theorem lt_length_of_get? (r : Registry) {name : String} {place : Nat}
    (h : r.index.get? name = some place) : place < r.vars.length := by
  have hname := (r.inStep name place).mp h
  have hlt := (List.getElem?_eq_some_iff.mp hname).1
  rwa [List.length_map] at hlt

/-- The place of the variable of the given name. -/
def place? (r : Registry) (name : String) : Option (Fin r.vars.length) :=
  (r.index.get? name).pmap Fin.mk fun _ h => r.lt_length_of_get? h

def find? (r : Registry) (name : String) : Option Variable := (r.place? name).map r.vars.get

/-- Adds a variable at the end. -/
def push (v : Variable) (r : Registry) (fresh : r.contains v.name = false) : Registry where
  vars := r.vars ++ [v]
  index := r.index.insert v.name r.vars.length
  inStep := by
    have hfresh : r.index.get? v.name = none := by simpa [contains] using fresh
    simpa using r.inStep.insert hfresh

/-- Adds a variable at the end, unless its name is taken. -/
def declare (v : Variable) (r : Registry) : Attempt Registry RegistryError Unit :=
  if taken : r.contains v.name then .fail r (.duplicate v.name)
  else .after (.declared v.name) (.ok (r.push v (Bool.eq_false_iff.mpr taken)) ())

/-- Declares variables in order. -/
def declareAll : List Variable → Registry → Attempt Registry RegistryError Unit
  | [], r => .ok r ()
  | v :: vs, r => (r.declare v).andThen fun r _ => declareAll vs r

/-- The registry of some variables, up to the first whose name is taken. -/
def ofList (vs : List Variable) : Registry := (declareAll vs {}).state

/-- A number as a literal; beyond 64 bits it stays at the largest one. -/
def saturated (n : Nat) : Int64 := Int64.ofInt (min n Int64.maxValue.toInt)

/-- The companion of an array along one dimension. -/
def lengthVariable (array : String) (dimension capacity length : Nat) : Variable where
  name := lengthName array dimension
  type := .boundedInt 0 (saturated capacity)
  initial := some (.ofInt (saturated length))

/-- Declares the companions that are missing, from the given dimension on; each comes with its
capacity and its initial length. -/
def declareLengths (array : String) :
    Nat → List (Nat × Nat) → Registry → Attempt Registry RegistryError Unit
  | _, [], r => .ok r ()
  | d, (capacity, length) :: rest, r =>
    if r.contains (lengthName array d) then declareLengths array (d + 1) rest r
    else
      (r.declare (lengthVariable array d capacity length)).andThen fun r _ =>
        declareLengths array (d + 1) rest r

/-- Other variables of the same names, at the same places. -/
def withVars (r : Registry) (vars : List Variable)
    (h : vars.map (·.name) = r.vars.map (·.name)) : Registry where
  vars := vars
  index := r.index
  inStep := h ▸ r.inStep

theorem map_name_modify_sized (capacities : List Nat) (vars : List Variable) (place : Nat) :
    (vars.modify place (.sized capacities)).map (·.name) = vars.map (·.name) := by
  apply List.ext_getElem?
  intro i
  rw [List.getElem?_map, List.getElem?_map, List.getElem?_modify]
  cases vars[i]? with
  | none => rfl
  | some v =>
    simp only [Option.map_eq_map, Option.map_some]
    split <;> rfl

/-- Gives capacities to the variable at the given place. -/
def giveCapacities (place : Nat) (capacities : List Nat) (r : Registry) : Registry :=
  r.withVars (r.vars.modify place (.sized capacities))
    (map_name_modify_sized capacities r.vars place)

/-- The first dimension, counted from `d`, along which a length exceeds its capacity. -/
def overflow? : Nat → List (Nat × Nat) → Option (Nat × Nat × Nat)
  | _, [] => none
  | d, (capacity, length) :: rest =>
    if capacity < length then some (d, length, capacity) else overflow? (d + 1) rest

/-- Gives an array its capacities and declares the companions that are missing. -/
def setCapacities (name : String) (capacities : List Nat) (r : Registry) :
    Attempt Registry RegistryError Unit :=
  match r.place? name with
  | none => .fail r (.unknown name)
  | some place =>
    let v := r.vars.get place
    if !v.isArray then .fail r (.notAnArray name)
    else if v.type.dimensions ≠ capacities.length then
      .fail r (.dimensionMismatch name v.type.dimensions capacities.length)
    else
      let sizes := capacities.zip (initialLengths v.initial v.type.dimensions)
      match overflow? 1 sizes with
      | some (d, length, capacity) => .fail r (.capacityExceeded name d length capacity)
      | none => declareLengths name 1 sizes (r.giveCapacities place capacities)

/-- An array with one dimension for each capacity. -/
def arrayVariable (name : String) (base : VarType) (capacities : List Nat) : Variable where
  name := name
  type := capacities.foldl (fun t _ => .array t) base

/-- Declares an array with one dimension for each capacity, and its companions. -/
def declareArray (name : String) (base : VarType) (capacities : List Nat) (r : Registry) :
    Attempt Registry RegistryError Unit :=
  (r.declare (arrayVariable name base capacities)).andThen fun r _ =>
    r.setCapacities name capacities

/-- A registry is written as the list of its variables; all of them are read before the first is
declared. -/
def codec : Codec Registry where
  encode r := Variable.codec.list.encode r.vars
  decode s n := do
    let vs ← Variable.codec.list.decode s n
    (declareAll vs {}).toReport.mapError fun e => .data (.registry e)

end Registry

/-! ## Scopes -/

/-- The variables visible at some point of a model: those of an automaton, if any, and the global
ones. -/
structure Scope where
  locals : Option Registry := none
  globals : Registry

/-- Local variables come first. -/
def Scope.find? (s : Scope) (name : String) : Option Variable :=
  (s.locals.bind (·.find? name)).or (s.globals.find? name)

end AutomataNet
