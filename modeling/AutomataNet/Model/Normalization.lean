import AutomataNet.Expr.Normalization
import AutomataNet.Model.Basic
/-!
Normal form of models: every guard, probability and assigned value of the automata, and the
properties, are normalized in place. On failure the model keeps what was normalized before.
-/

namespace AutomataNet

abbrev Normalizing (σ : Type) := Attempt σ NormalizationError Unit

def Guard.normalize (scope : Scope) (g : Guard) : Normalizing Guard :=
  (Attempt.replace (Expr.normalize scope) g.exp).mapState fun exp => { g with exp }

def Probability.normalize (scope : Scope) (p : Probability) : Normalizing Probability :=
  (Attempt.replace (Expr.normalize scope) p.exp).mapState fun exp => { p with exp }

/-- Only the value is normalized, not the target. -/
def Assignment.normalize (scope : Scope) (a : Assignment) : Normalizing Assignment :=
  (Attempt.replace (Expr.normalize scope) a.value).mapState fun value => { a with value }

namespace Destination

def normalizeProbability (scope : Scope) (d : Destination) : Normalizing Destination :=
  (Attempt.onOption (Probability.normalize scope) d.probability).mapState fun probability =>
    { d with probability }

def normalizeAssignments (scope : Scope) (d : Destination) : Normalizing Destination :=
  ((Attempt.onEach (Assignment.normalize scope) d.assignments).mapState fun assignments =>
    { d with assignments }).mapResult fun _ => ()

def normalize (scope : Scope) (d : Destination) : Normalizing Destination :=
  (d.normalizeProbability scope).andThen fun d _ => d.normalizeAssignments scope

end Destination

namespace Edge

def normalizeGuard (scope : Scope) (e : Edge) : Normalizing Edge :=
  (Attempt.onOption (Guard.normalize scope) e.guard).mapState fun guard => { e with guard }

def normalizeDestinations (scope : Scope) (e : Edge) : Normalizing Edge :=
  ((Attempt.onEach (Destination.normalize scope) e.destinations).mapState fun destinations =>
    { e with destinations }).mapResult fun _ => ()

def normalize (scope : Scope) (e : Edge) : Normalizing Edge :=
  (e.normalizeGuard scope).andThen fun e _ => e.normalizeDestinations scope

end Edge

/-- Expressions of an automaton see its own variables and the global ones. -/
def Automaton.normalize (globals : Registry) (a : Automaton) : Normalizing Automaton :=
  (((Attempt.onEach (Edge.normalize { locals := some a.locals, globals }) a.edges).mapState
    fun edges => { a with edges }).mapResult fun _ => ()).mapError (.inAutomaton a.name)

namespace Property

/-- The operands of the top operator are normalized each on its own; the operator itself may hold
arrays. -/
def normalizeExpr (scope : Scope) : Expr → Report NormalizationError Expr
  | .operator op operands c => do
    let operands ← Expr.normalizeOperands scope operands
    return .operator op operands c
  | e => e.normalize scope

/-- Properties see the global variables only. -/
def normalize (globals : Registry) (p : Property) : Normalizing Property :=
  ((Attempt.replace (normalizeExpr { globals }) p.expression).mapState fun expression =>
    { p with expression }).mapError (.inProperty p.name)

end Property

namespace Model

def normalizeAutomata (m : Model) : Normalizing Model :=
  ((Attempt.onEach (Automaton.normalize m.globals) m.automata).mapState fun automata =>
    { m with automata }).mapResult fun _ => ()

def normalizeProperties (m : Model) : Normalizing Model :=
  ((Attempt.onEach (Property.normalize m.globals) m.properties).mapState fun properties =>
    { m with properties }).mapResult fun _ => ()

def normalize (m : Model) : Normalizing Model :=
  .after (.normalizing m.name) (m.normalizeAutomata.andThen fun m _ => m.normalizeProperties)

end Model

end AutomataNet
