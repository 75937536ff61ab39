import AutomataNet.Automaton
import AutomataNet.Model.Composition
import AutomataNet.Text.Lowercase
/-!
Models: networks of automata that share global variables, with the properties to check on them.
-/

namespace AutomataNet

/-- An action label. -/
structure Action where
  name : String
  comment : Option String := none
deriving DecidableEq, Repr, Inhabited

def Action.record : Record Action where
  name := "Action"
  fields := .cons (.required "name" .string) <| .cons .comment .nil
  toRow a := (a.name, a.comment, ())
  ofRow := fun (name, comment, ()) => { name, comment }

/-- A property to check. -/
structure Property where
  name : String
  expression : Expr
  comment : Option String := none
deriving BEq, Inhabited

def Property.record : Record Property where
  name := "Property"
  fields :=
    .cons (.required "name" .string) <| .cons (.required "expression" .expr) <| .cons .comment .nil
  toRow p := (p.name, p.expression, p.comment, ())
  ofRow := fun (name, expression, comment, ()) => { name, expression, comment }

/-! ## Features and types of models -/

/-- Extensions of the model language that a model makes use of. -/
inductive Feature where
  | arrays
  | datatypes
  | derivedOperators
  | edgePriorities
  | functions
  | hyperbolicFunctions
  | namedExpressions
  | nondetSelection
  | stateExitRewards
  | tradeoffProperties
  | trigonometricFunctions
deriving DecidableEq, Repr, Inhabited

namespace Feature

def all : List Feature :=
  [.arrays, .datatypes, .derivedOperators, .edgePriorities, .functions, .hyperbolicFunctions,
   .namedExpressions, .nondetSelection, .stateExitRewards, .tradeoffProperties,
   .trigonometricFunctions]

def spelling : Feature → String
  | .arrays => "arrays"
  | .datatypes => "datatypes"
  | .derivedOperators => "derived-operators"
  | .edgePriorities => "edge-priorities"
  | .functions => "functions"
  | .hyperbolicFunctions => "hyperbolic-functions"
  | .namedExpressions => "named-expressions"
  | .nondetSelection => "nondet-selection"
  | .stateExitRewards => "state-exit-rewards"
  | .tradeoffProperties => "tradeoff-properties"
  | .trigonometricFunctions => "trigonometric-functions"

def codec : Codec Feature := .choice ⟨all, spelling⟩

end Feature

/-- The kind of process a model describes. -/
inductive ModelType where
  | lts
  | dtmc
  | ctmc
  | mdp
  | ctmdp
  | ma
  | ta
  | pta
  | sta
  | ha
  | pha
  | sha
deriving DecidableEq, Repr, Inhabited

namespace ModelType

def all : List ModelType :=
  [.lts, .dtmc, .ctmc, .mdp, .ctmdp, .ma, .ta, .pta, .sta, .ha, .pha, .sha]

def spelling : ModelType → String
  | .lts => "lts"
  | .dtmc => "dtmc"
  | .ctmc => "ctmc"
  | .mdp => "mdp"
  | .ctmdp => "ctmdp"
  | .ma => "ma"
  | .ta => "ta"
  | .pta => "pta"
  | .sta => "sta"
  | .ha => "ha"
  | .pha => "pha"
  | .sha => "sha"

def codec : Codec ModelType := .choice ⟨all, spelling⟩

/-- Reads a name in any case. -/
def ofName (name : String) : Except DocumentError ModelType :=
  (codec.ofValue (.str (Text.lowercase name))).outcome

end ModelType

/-! ## Models -/

/-- A model. -/
structure Model where
  version : UInt8 := 1
  name : String
  type : ModelType := .mdp
  features : List Feature := []
  actions : List Action := []
  globals : Registry := {}
  automata : List Automaton := []
  system : Composition := {}
  properties : List Property := []
deriving BEq, Inhabited

/-- Why a model cannot be changed. -/
inductive ModelError where
  | duplicateAutomaton (name : String)
deriving DecidableEq, Repr, Inhabited

namespace ModelError

def message : ModelError → String
  | .duplicateAutomaton n => s!"automaton '{n}' is already part of the model"

end ModelError

namespace Model

/-- Adds a feature, unless it is there. -/
def addFeature (f : Feature) (m : Model) : Model :=
  if m.features.contains f then m else { m with features := m.features ++ [f] }

def hasAction (m : Model) (name : String) : Bool := m.actions.any (·.name = name)

/-- Adds an action, unless there is one of that name. -/
def addAction (name : String) (m : Model) : Model :=
  if m.hasAction name then m else { m with actions := m.actions ++ [{ name }] }

def automaton? (m : Model) (name : String) : Option Automaton := m.automata.find? (·.name = name)

/-- Adds an automaton at the end, unless its name is taken. -/
def addAutomaton (a : Automaton) (m : Model) : Attempt Model ModelError Unit :=
  if (m.automaton? a.name).isSome then .fail m (.duplicateAutomaton a.name)
  else .after (.addedAutomaton a.name m.name) (.ok { m with automata := m.automata ++ [a] } ())

/-- Applies a function to the first automaton of the given name. -/
def updateAutomaton (name : String) (f : Automaton → Automaton) : List Automaton → List Automaton
  | [] => []
  | a :: as => if a.name = name then f a :: as else a :: updateAutomaton name f as

def record : Record Model where
  name := "Model"
  fields :=
    .cons (.required "jani-version" .byte) <|
    .cons (.required "name" .string) <|
    .cons (.required "type" ModelType.codec) <|
    .cons (.defaulted "features" Feature.codec.list []) <|
    .cons (.defaulted "actions" Action.record.codec.list []) <|
    .cons (.defaulted "variables" Registry.codec {}) <|
    .cons (.required "automata" Automaton.codec.list) <|
    .cons (.required "system" Composition.record.codec) <|
    .cons (.defaulted "properties" Property.record.codec.list []) .nil
  toRow m :=
    (m.version, m.name, m.type, m.features, m.actions, m.globals, m.automata, m.system,
      m.properties, ())
  ofRow := fun (version, name, type, features, actions, globals, automata, system, properties, ()) =>
    { version, name, type, features, actions, globals, automata, system, properties }

def codec : Codec Model := record.codec

end Model

end AutomataNet
