import AutomataNet.Automaton
import AutomataNet.Event
/-!
Statecharts, given by the automata they stand for.

A file holds the name of a statechart, whether it is plain, and its automaton. A model file gives
no capacities to arrays, so these are set when the automaton is taken over. The length of an array
at the start is read off its initial value, unless the automaton declares its own length variables.
-/

namespace AutomataNet

/-- A statechart. -/
structure Chart where
  name : String
  /-- Higher-level constructs are already resolved. -/
  plain : Bool := true
  automaton : Automaton
  /-- Where the statechart comes from, for messages. -/
  locator : String
deriving BEq, Inhabited

/-! ## Files -/

/-- What a file holds. -/
structure ChartFile where
  name : String
  plain : Bool := true
  automaton : Automaton
deriving BEq, Inhabited

namespace ChartFile

def record : Record ChartFile where
  name := "StatechartFile"
  fields :=
    .cons (.required "name" .string) <|
    .cons (.defaulted "plain" .bool true) <|
    .cons (.required "automaton" Automaton.codec) .nil
  toRow f := (f.name, f.plain, f.automaton, ())
  ofRow := fun (name, plain, automaton, ()) => { name, plain, automaton }

def locatedAt (locator : String) (f : ChartFile) : Chart :=
  { name := f.name, plain := f.plain, automaton := f.automaton, locator }

end ChartFile

/-- Reads the text of a file. -/
def Chart.ofText (locator text : String) : Report DocumentError Chart :=
  ChartFile.locatedAt locator <$> ChartFile.record.codec.ofText text

/-! ## Taking over the automaton -/

/-- What is wrong with a statechart. -/
inductive ChartProblem where
  | misnamed (found expected : String)
  | unknownLocation (location : String)
  /-- An array whose length at the start is not known. -/
  | unsizedArray (name : String)
  | array (cause : RegistryError)
deriving DecidableEq, Repr, Inhabited

def ChartProblem.message : ChartProblem → String
  | .misnamed found expected => s!"automaton is named '{found}' instead of '{expected}'"
  | .unknownLocation l => s!"unknown location '{l}'"
  | .unsizedArray n =>
    s!"array '{n}' is neither initialized with an array value nor declares its length variables"
  | .array e => e.message

/-- A problem and where the statechart comes from. -/
structure ChartError where
  locator : String
  problem : ChartProblem
deriving DecidableEq, Repr, Inhabited

def ChartError.message (e : ChartError) : String :=
  e.locator ++ ": " ++ e.problem.message

namespace Automaton

/-- The locations that edges lead from and to, in the order of the edges. -/
def usedLocations (a : Automaton) : List String :=
  a.edges.flatMap fun e => e.location :: e.destinations.map (·.location)

/-- The arrays that have no capacities yet. -/
def unsizedArrays (a : Automaton) : List Variable :=
  a.locals.vars.filter fun v => v.isArray && v.capacities.isNone

end Automaton

namespace Registry

/-- All length variables of an array are declared. -/
def hasLengths (r : Registry) (v : Variable) : Bool :=
  (List.range' 1 v.type.dimensions).all fun d => r.contains (lengthName v.name d)

/-- Gives the arrays the same capacity along all dimensions, in order. -/
def sizeArrays (capacity : Nat) : List Variable → Registry → Attempt Registry ChartProblem Unit
  | [], r => .ok r ()
  | v :: vs, r =>
    if !v.initial.any (·.isArrayValue) && !r.hasLengths v then .fail r (.unsizedArray v.name)
    else
      (Attempt.after (.sizedArray v.name capacity v.type.dimensions)
        ((r.setCapacities v.name (List.replicate v.type.dimensions capacity)).mapError
          ChartProblem.array)).andThen fun r _ => sizeArrays capacity vs r

end Registry

namespace Chart

/-- The automaton of a statechart, with capacities for its arrays, or what is wrong with it. -/
def check (capacity : Nat) (c : Chart) : Report ChartProblem Automaton :=
  let a := c.automaton
  if a.name ≠ c.name then .fail (.misnamed a.name c.name)
  else
    match a.usedLocations.find? (!a.hasLocation ·) with
    | some l => .fail (.unknownLocation l)
    | none =>
      (fun locals => { a with locals }) <$>
        (a.locals.sizeArrays capacity a.unsizedArrays).toReport

/-- Takes over the automaton of a statechart and records its events. On failure the events stay as
they are. -/
def accept (capacity : Nat) (c : Chart) (events : EventTable) :
    Attempt EventTable ChartError Automaton :=
  let r := (c.check capacity).mapError fun problem => ({ locator := c.locator, problem } : ChartError)
  match r.outcome with
  | .error e => ⟨events, .error e, r.notices⟩
  | .ok a =>
    let (events, told) := events.recordLabels a.name a.actions
    ⟨events, .ok a, r.notices ++ told⟩

end Chart

end AutomataNet
