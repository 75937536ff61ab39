import AutomataNet.Codec.Record
/-!
The composition of a network: which automata take part, and which of their actions happen together.
-/

namespace AutomataNet

/-- An automaton taking part. -/
structure Element where
  automaton : String
  /-- Actions the automaton is to be ready for in every location. -/
  inputEnable : List String := []
deriving DecidableEq, Repr, Inhabited

def Element.record : Record Element where
  name := "Element"
  fields :=
    .cons (.required "automaton" .string) <| .cons (.elidedList "input-enable" .string) .nil
  toRow e := (e.automaton, e.inputEnable, ())
  ofRow := fun (automaton, inputEnable, ()) => { automaton, inputEnable }

/-- A synchronization: for each element an action, or nothing if it does not take part. -/
structure Sync where
  participants : List (Option String)
  /-- The action seen from outside; silent if missing. -/
  result : Option String := none
  comment : Option String := none
deriving DecidableEq, Repr, Inhabited

namespace Sync

/-- Nobody takes part. -/
def isEmpty (s : Sync) : Bool := s.participants.all (·.isNone)

def record : Record Sync where
  name := "Sync"
  fields :=
    .cons (.required "synchronise" Codec.string.option.list) <|
    .cons (.optional "result" .string) <|
    .cons .comment .nil
  toRow s := (s.participants, s.result, s.comment, ())
  ofRow := fun (participants, result, comment, ()) => { participants, result, comment }

end Sync

/-- The composition of a network. -/
structure Composition where
  elements : List Element := []
  syncs : List Sync := []
  comment : Option String := none
deriving DecidableEq, Repr, Inhabited

namespace Composition

/-- The position of the element for an automaton. -/
def elementIndex? (c : Composition) (automaton : String) : Option Nat :=
  c.elements.findIdx? (·.automaton = automaton)

def record : Record Composition where
  name := "Composition"
  fields :=
    .cons (.required "elements" Element.record.codec.list) <|
    .cons (.elidedList "syncs" Sync.record.codec) <|
    .cons .comment .nil
  toRow c := (c.elements, c.syncs, c.comment, ())
  ofRow := fun (elements, syncs, comment, ()) => { elements, syncs, comment }

end Composition

end AutomataNet
