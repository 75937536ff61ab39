import AutomataNet.Chart
import AutomataNet.Model.Expansion
import AutomataNet.Model.Normalization
import AutomataNet.Model.Pruning
import AutomataNet.Model.Synchronization
/-!
Assembly of statecharts into a model.

Each statechart becomes an automaton, and the events they exchange become synchronizations. Then
participants that have no say are pruned and random assignments are expanded. Conversion also adds
properties and brings all expressions into normal form.
-/

namespace AutomataNet

/-- Why no model comes out. -/
inductive AssemblyError where
  | configuration (cause : ConfigurationError)
  | chart (name locator : String) (cause : ChartError)
  | pruning (cause : PruningError)
  | expansion (cause : ExpansionError)
  | normalization (cause : NormalizationError)
deriving DecidableEq, Repr, Inhabited

def AssemblyError.message : AssemblyError → String
  | .configuration e => "configuration error: " ++ e.message
  | .chart c l e => s!"failed to translate model '{c}' from {l}: " ++ e.message
  | .pruning e => "failed to prune model: " ++ e.message
  | .expansion e => "failed to expand randomized assignments: " ++ e.message
  | .normalization e => "failed to normalize model: " ++ e.message

/-- Name and type of the model to build. -/
structure Assembler where
  modelName : String := "model"
  modelType : ModelType := .mdp
deriving DecidableEq, Repr, Inhabited

namespace Assembler

/-- The model before the first statechart. -/
def start (s : Assembler) : Model :=
  (({ name := s.modelName, type := s.modelType } : Model).addFeature .arrays).addFeature
    .trigonometricFunctions

/-- The automaton of a statechart; a failure is also told. -/
def acceptChart (capacity : Nat) (c : Chart) (events : EventTable) :
    Report AssemblyError (Automaton × EventTable) :=
  if !c.plain then .fail (.configuration (.notPlain c.name))
  else
    let t := c.accept capacity events
    match t.outcome with
    | .error e =>
      ⟨.error (.chart c.name c.locator e),
        t.notices ++ [.rejected c.name c.locator e.message]⟩
    | .ok a => ⟨.ok (a, t.state), t.notices ++ [.accepted c.name a.name]⟩

/-- Adds an automaton together with the actions on its edges. -/
def addAutomaton (a : Automaton) (m : Model) : Report AssemblyError Model :=
  ((a.actions.foldl (fun m action => m.addAction action) m).addAutomaton a).toReport.mapError
    fun
    | .duplicateAutomaton name => .configuration (.duplicateAutomaton name)

/-- Adds the statecharts in order. -/
def addCharts (capacity : Nat) :
    List Chart → Model → EventTable → Report AssemblyError (Model × EventTable)
  | [], m, events => .ok (m, events)
  | c :: cs, m, events => do
    let (a, events) ← acceptChart capacity c events
    let m ← addAutomaton a m
    addCharts capacity cs m events

/-- Assembles statecharts. Arrays hold at most `capacity` elements along each dimension. -/
def assemble (s : Assembler) (charts : List Chart) (capacity : Nat) :
    Report AssemblyError Model := do
  Report.note (.assembling charts.length s.modelName)
  let (m, events) ← addCharts capacity charts s.start {}
  let synced := m.synchronize events
  let actions ← (⟨synced.outcome, synced.notices⟩ : Report _ _).mapError .configuration
  let m ← (synced.state.prune actions).toReport.mapError .pruning
  (m.expand Model.expansionCap).toReport.mapError .expansion

/-- Assembles statecharts, adds properties, and normalizes the model. -/
def convert (s : Assembler) (charts : List Chart) (capacity : Nat) (properties : List Property) :
    Report AssemblyError Model := do
  let m ← s.assemble charts capacity
  let m := { m with properties := m.properties ++ properties }
  let m ← m.normalize.toReport.mapError .normalization
  Report.note
    (.assembled m.name m.automata.length m.system.syncs.length m.properties.length)
  return m

end Assembler

end AutomataNet
