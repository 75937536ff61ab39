import AutomataNet.Assembly.Error
import AutomataNet.Event
import AutomataNet.Model.Basic
/-!
Synchronizations that carry the events.

Each sender of an event synchronizes with all its receivers. A receiver has to be ready for the
event always: where it does not handle it, it gets a self-loop that discards the event.
-/

namespace AutomataNet

/-! ## Discarding -/

namespace Automaton

/-- The self-loop that discards an action in a location, unless some edge always takes it there. It
is enabled when none of the edges that take the action is. -/
def discard? (a : Automaton) (action : String) (location : Location) : Option Edge :=
  let edges := (a.edgesWithAction action).filter (·.location = location.name)
  if edges.any (·.isUnguarded) then none
  else
    let guard : Option Guard := match edges.filterMap (·.guardExp?) with
      | [] => none
      | g :: gs => some { exp := .neg (gs.foldl .disj g) }
    some
      { location := location.name
        action := some action
        guard
        destinations := [{ location := location.name }] }

def discards (a : Automaton) (action : String) : List Edge :=
  a.locations.filterMap (a.discard? action)

/-- Makes the automaton ready for an action in every location. -/
def inputEnable (a : Automaton) (action : String) : Automaton :=
  { a with edges := a.edges ++ a.discards action }

end Automaton

/-! ## Vectors -/

/-- Automata with the positions of their elements. -/
abbrev Positions := List (String × Nat)

/-- Looks up the automata that exchange an event. -/
def Composition.locate (c : Composition) (event : String) :
    List String → Except ConfigurationError Positions
  | [] => .ok []
  | name :: names =>
    match c.elementIndex? name with
    | none => .error (.unknownAutomaton event name)
    | some i => do
      let rest ← c.locate event names
      .ok ((name, i) :: rest)

/-- The participants when one automaton sends an event to the others; the sender does not receive
it. -/
def participants (size : Nat) (event : String) (sender : String × Nat) (receivers : Positions) :
    List (Option String) :=
  receivers.foldl
    (fun v (name, i) => if name = sender.1 then v else v.set i (some (receiveLabel event)))
    ((List.replicate size none).set sender.2 (some (sendLabel event)))

/-! ## Models -/

namespace Model

/-- Makes the receivers ready for an event, in order. -/
def enableReceivers (action : String) : List String → Model → Model × List Notice
  | [], m => (m, [])
  | name :: names, m =>
    let told := (m.automaton? name).map fun a =>
      Notice.discards a.name action (a.discards action).length
    let m' := { m with automata := updateAutomaton name (·.inputEnable action) m.automata }
    let (m'', notices) := enableReceivers action names m'
    (m'', told.toList ++ notices)

/-- Declares the actions of an event. -/
def addEventActions (event : String) (received : Bool) (m : Model) : Model :=
  let m := (m.addAction (sendLabel event)).addAction event
  if received then m.addAction (receiveLabel event) else m

/-- One synchronization for each sender. -/
def addVectors (event : String) (senders receivers : Positions) (m : Model) : Model :=
  let vectors := senders.map fun sender =>
    ({ participants := participants m.system.elements.length event sender receivers
       result := some event } : Sync)
  { m with system := { m.system with syncs := m.system.syncs ++ vectors } }

/-- The actions that take part in an event. -/
def eventActions (event : String) (received : Bool) : List String :=
  if received then [sendLabel event, receiveLabel event] else [sendLabel event]

/-- Adds the synchronizations of one event, and gives the actions that take part in it. An event
that nobody sends adds nothing. -/
def addEvent (entry : EventEntry) (m : Model) : Attempt Model ConfigurationError (List String) :=
  let event := entry.event
  let located := do
    let senders ← m.system.locate event entry.senders
    let receivers ← m.system.locate event entry.receivers
    return (senders, receivers)
  match located with
  | .error e => .fail m e
  | .ok (senders, receivers) =>
    if senders.isEmpty then .after (.neverSent event) (.ok m [])
    else
      let received := !receivers.isEmpty
      let unheard := if received then [] else [Notice.neverReceived event]
      let (m, discarding) :=
        enableReceivers (receiveLabel event) (receivers.map (·.1)) (m.addEventActions event received)
      let own := (senders.filter fun s => receivers.any (·.1 = s.1)).map fun s =>
        Notice.ignoresOwnEvent s.1 event
      ⟨m.addVectors event senders receivers, .ok (eventActions event received),
        unheard ++ discarding ++ own⟩

/-- Adds the events in order; `actions` are those that take part in the ones before. -/
def addEvents : List EventEntry → List String → Model →
    Attempt Model ConfigurationError (List String)
  | [], actions, m => .ok m actions
  | entry :: entries, actions, m =>
    (m.addEvent entry).andThen fun m more =>
      m.addEvents entries (more.foldl (fun names n => insertName n names) actions)

/-- One element for each automaton. -/
def withElements (m : Model) : Model :=
  let elements := m.automata.map fun a => ({ automaton := a.name } : Element)
  { m with system := { m.system with elements } }

/-- Builds the composition and the synchronizations of the events. The result holds the actions that
take part in them, in alphabetical order. -/
def synchronize (events : EventTable) (m : Model) :
    Attempt Model ConfigurationError (List String) :=
  .after (.synthesizing events.entries.length) (m.withElements.addEvents events.entries [])

end Model

end AutomataNet
