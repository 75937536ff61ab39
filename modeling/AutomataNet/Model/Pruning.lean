import AutomataNet.Model.Basic
/-!
Removal of participants that have no say.

An automaton is inert on an action when it can take it in every location, and taking it changes
neither the location nor a variable. Such an automaton is dropped from the synchronizations on that
action, together with the edges that carry it.
-/

namespace AutomataNet

/-! ## Inertness -/

/-- Weight 1, as an integer or as a real. -/
def Expr.isUnitWeight : Expr → Bool
  | .literal (.int n) _ => n == 1
  | .literal (.real x) _ => sameReal x 1.0
  | _ => false

/-- Going from `location` to the destination changes nothing. -/
def Destination.isIdle (location : String) (d : Destination) : Bool :=
  d.location = location && d.probability.all (·.exp.isUnitWeight) &&
    d.assignments.all (·.isIdentity)

/-- The edge is a self-loop that changes nothing. -/
def Edge.isIdle (e : Edge) : Bool := e.destinations.all (·.isIdle e.location)

/-- The automaton can always take the action, and nothing comes of it. -/
def Automaton.isInert (a : Automaton) (action : String) : Bool :=
  a.hasAction action && (a.edgesWithAction action).all (·.isIdle) &&
    a.locations.all fun l =>
      (a.edgesWithAction action).any fun e => e.location = l.name && e.isUnguarded

/-! ## Pruning -/

/-- An inert automaton, with the position of its element. -/
structure Idler where
  automaton : String
  index : Nat
  action : String
deriving DecidableEq, Repr, Inhabited

namespace Idler

/-- Takes the idler out of a synchronization. -/
def leave (i : Idler) (s : Sync) : Sync :=
  if s.participants[i.index]? = some (some i.action) then
    { s with participants := s.participants.set i.index none }
  else s

/-- Removes the edges that carry the action. -/
def silence (i : Idler) (a : Automaton) : Automaton :=
  { a with edges := a.edges.filter (·.action ≠ some i.action) }

/-- Takes the idler out of the model. -/
def remove (i : Idler) (m : Model) : Model :=
  { m with
    automata := Model.updateAutomaton i.automaton i.silence m.automata
    system := { m.system with syncs := m.system.syncs.map i.leave } }

/-- Every synchronization has an entry for the idler. -/
def fits (i : Idler) (m : Model) : Bool :=
  m.system.syncs.all fun s => i.index < s.participants.length

end Idler

/-- Why a model cannot be pruned: a synchronization has no entry for some element. -/
inductive PruningError where
  | shortSync (index : Nat)
deriving DecidableEq, Repr, Inhabited

def PruningError.message : PruningError → String
  | .shortSync i => s!"a synchronization has no entry for element {i}"

namespace Model

/-- The inert automata that take part in the composition, by action. -/
def idlers (actions : List String) (m : Model) : List Idler :=
  actions.flatMap fun action =>
    (m.automata.filter (·.isInert action)).filterMap fun a =>
      (m.system.elementIndex? a.name).map fun index => { automaton := a.name, index, action }

/-- Drops the synchronizations nobody takes part in. -/
def dropEmptySyncs (m : Model) : Model :=
  { m with system := { m.system with syncs := m.system.syncs.filter (!·.isEmpty) } }

/-- Removes the automata inert on the given actions from the synchronizations, and then the
synchronizations that are left without participants. -/
def prune (actions : List String) (m : Model) : Attempt Model PruningError Unit :=
  let idlers := m.idlers actions
  let told := idlers.map fun i => Notice.inert i.automaton i.action
  match idlers.find? (!·.fits m) with
  | some i => ⟨m, .error (.shortSync i.index), told⟩
  | none =>
    let pruned := (idlers.foldl (fun m i => i.remove m) m).dropEmptySyncs
    let dropped := m.system.syncs.length - pruned.system.syncs.length
    ⟨pruned, .ok (), told ++ [.pruned idlers.length dropped]⟩

end Model

end AutomataNet
