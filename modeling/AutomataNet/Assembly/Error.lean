/-!
Inputs that cannot be put together.
-/

namespace AutomataNet

/-- Why inputs do not fit together. -/
inductive ConfigurationError where
  /-- A statechart still has constructs that are to be resolved first. -/
  | notPlain (chart : String)
  | duplicateAutomaton (name : String)
  /-- Someone who exchanges an event is not in the model. -/
  | unknownAutomaton (event automaton : String)
deriving DecidableEq, Repr, Inhabited

def ConfigurationError.message : ConfigurationError → String
  | .notPlain n =>
    s!"statechart '{n}' is not plain: higher-level constructs have to be resolved first"
  | .duplicateAutomaton n => s!"automaton '{n}' is defined more than once"
  | .unknownAutomaton e a => s!"event '{e}' references unknown automaton '{a}'"

end AutomataNet
