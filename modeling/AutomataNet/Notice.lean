/-!
Notices: what the operations of the library tell about their work as they go.
-/

namespace AutomataNet

/-- How important a notice is, most severe first. -/
inductive Severity where
  | error
  | warn
  | info
  | debug
  | trace
deriving DecidableEq, Repr, Inhabited

namespace Severity

def all : List Severity := [.error, .warn, .info, .debug, .trace]

def label : Severity → String
  | .error => "ERROR"
  | .warn => "WARN"
  | .info => "INFO"
  | .debug => "DEBUG"
  | .trace => "TRACE"

def name : Severity → String
  | .error => "error"
  | .warn => "warn"
  | .info => "info"
  | .debug => "debug"
  | .trace => "trace"

def ofName? (s : String) : Option Severity := all.find? (·.name = s)

/-- Position in the order of severity. -/
def rank : Severity → Nat
  | .error => 0
  | .warn => 1
  | .info => 2
  | .debug => 3
  | .trace => 4

end Severity

/-- A fact worth telling. -/
inductive Notice where
  | declared (name : String)
  | addedAutomaton (automaton model : String)
  | normalizing (model : String)
  | expandingComparison (array : String) (elements : Nat)
  | sends (automaton event : String)
  | receives (automaton event : String)
  | synthesizing (events : Nat)
  | neverSent (event : String)
  | neverReceived (event : String)
  | discards (automaton action : String) (locations : Nat)
  | ignoresOwnEvent (automaton event : String)
  | inert (automaton action : String)
  | pruned (participants syncs : Nat)
  | expandedIn (automaton : String) (destinations : Nat)
  | expanded (destinations : Nat)
  | sizedArray (array : String) (capacity dimensions : Nat)
  | assembling (charts : Nat) (model : String)
  | rejected (chart locator problem : String)
  | accepted (chart automaton : String)
  | assembled (model : String) (automata syncs properties : Nat)
  | readingChart (path : String)
  | readingProperties (path : String)
  | writing (path : String)
deriving DecidableEq, Repr, Inhabited

namespace Notice

def severity : Notice → Severity
  | declared .. => .trace
  | addedAutomaton .. => .debug
  | normalizing .. => .debug
  | expandingComparison .. => .trace
  | sends .. => .trace
  | receives .. => .trace
  | synthesizing .. => .info
  | neverSent .. => .warn
  | neverReceived .. => .warn
  | discards .. => .debug
  | ignoresOwnEvent .. => .debug
  | inert .. => .debug
  | pruned .. => .info
  | expandedIn .. => .debug
  | expanded .. => .info
  | sizedArray .. => .debug
  | assembling .. => .info
  | rejected .. => .error
  | accepted .. => .info
  | assembled .. => .info
  | readingChart .. => .info
  | readingProperties .. => .info
  | writing .. => .info

def message : Notice → String
  | declared v => s!"declare variable '{v}'"
  | addedAutomaton a m => s!"add automaton '{a}' to model '{m}'"
  | normalizing m => s!"normalizing expressions of model '{m}'"
  | expandingComparison a n => s!"expanding comparison of array '{a}' with {n} elements"
  | sends a e => s!"'{a}' sends event '{e}'"
  | receives a e => s!"'{a}' receives event '{e}'"
  | synthesizing n => s!"synthesizing synchronizations for {n} events"
  | neverSent e => s!"event '{e}' is received but never sent"
  | neverReceived e => s!"event '{e}' is sent but never received"
  | discards a e n => s!"'{a}' discards '{e}' from {n} locations"
  | ignoresOwnEvent a e => s!"'{a}' does not receive its own event '{e}'"
  | inert a e => s!"'{a}' is inert on '{e}'"
  | pruned n k => s!"pruned {n} inert participants and {k} synchronizations"
  | expandedIn a n => s!"'{a}': expanded {n} destinations"
  | expanded n => s!"expanded {n} randomized destinations"
  | sizedArray a c d => s!"array '{a}' has capacity {c} over {d} dimensions"
  | assembling n m => s!"assembling {n} statecharts into model '{m}'"
  | rejected c l p => s!"failed to translate model '{c}' from {l}: {p}"
  | accepted c a => s!"translated '{c}' into automaton '{a}'"
  | assembled m a s p =>
    s!"model '{m}' has {a} automata, {s} synchronizations and {p} properties"
  | readingChart p => s!"parsing statechart file '{p}'"
  | readingProperties p => s!"parsing properties file '{p}'"
  | writing p => s!"writing model to '{p}'"

/-- The notice is shown to someone who asked for `level` and all that is more severe. -/
def shownAt (level : Severity) (n : Notice) : Bool := n.severity.rank ≤ level.rank

end Notice

end AutomataNet
