import AutomataNet.Report
/-!
Events, which automata exchange through the labels of their edges.

An event `e` is sent by edges labelled `e_on_send` and received by edges labelled `e_on_receive`.
The event table records who does so. It is kept in alphabetical order, so it does not depend on the
order in which it was filled.
-/

namespace AutomataNet

/-! ## Labels -/

def sendSuffix : String := "_on_send"

def receiveSuffix : String := "_on_receive"

/-- The label of edges that send an event. -/
def sendLabel (event : String) : String := event ++ sendSuffix

/-- The label of edges that receive an event. -/
def receiveLabel (event : String) : String := event ++ receiveSuffix

/-- What stands before the suffix, if the label ends in it. -/
def stripSuffix? (suffix label : String) : Option String :=
  let cs := label.toList
  let n := cs.length - suffix.toList.length
  if cs.drop n = suffix.toList then some (String.ofList (cs.take n)) else none

/-- The event sent by edges with the given label. -/
def sentEvent? (label : String) : Option String := stripSuffix? sendSuffix label

/-- The event received by edges with the given label. -/
def receivedEvent? (label : String) : Option String := stripSuffix? receiveSuffix label

/-! ## Sets of names -/

/-- Inserts a name in alphabetical order, unless it is there. -/
def insertName (name : String) : List String → List String
  | [] => [name]
  | n :: ns =>
    if name < n then name :: n :: ns
    else if name = n then n :: ns
    else n :: insertName name ns

/-! ## The event table -/

/-- Who sends and who receives an event. -/
structure EventEntry where
  event : String
  senders : List String := []
  receivers : List String := []
deriving DecidableEq, Repr, Inhabited

/-- The known events, in alphabetical order. -/
structure EventTable where
  entries : List EventEntry := []
deriving DecidableEq, Repr, Inhabited

namespace EventTable

/-- Changes the entry of an event, which is made if it is not there. -/
def changeEntry (event : String) (f : EventEntry → EventEntry) : List EventEntry → List EventEntry
  | [] => [f { event }]
  | e :: es =>
    if event < e.event then f { event } :: e :: es
    else if event = e.event then f e :: es
    else e :: changeEntry event f es

def addSender (event automaton : String) (t : EventTable) : EventTable :=
  ⟨changeEntry event (fun e => { e with senders := insertName automaton e.senders }) t.entries⟩

def addReceiver (event automaton : String) (t : EventTable) : EventTable :=
  ⟨changeEntry event (fun e => { e with receivers := insertName automaton e.receivers }) t.entries⟩

def find? (t : EventTable) (event : String) : Option EventEntry :=
  t.entries.find? (·.event = event)

/-- Records one label of an automaton. -/
def recordLabel (automaton label : String) (t : EventTable) : EventTable × List Notice :=
  match sentEvent? label with
  | some event => (t.addSender event automaton, [.sends automaton event])
  | none =>
    match receivedEvent? label with
    | some event => (t.addReceiver event automaton, [.receives automaton event])
    | none => (t, [])

/-- Records the labels of an automaton in order. -/
def recordLabels (automaton : String) : List String → EventTable → EventTable × List Notice
  | [], t => (t, [])
  | label :: labels, t =>
    let (t, notices) := recordLabel automaton label t
    let (t, more) := recordLabels automaton labels t
    (t, notices ++ more)

end EventTable

end AutomataNet
