import AutomataNet.Model.Normalization
import AutomataNet.Proofs.NormalForm
/-!
# What normalizing a model leaves

A successful normalization of a model, layer by layer down to the expressions.
-/

namespace AutomataNet

/-! ## Destinations and edges -/

namespace Destination

/-- A weight is replaced by its normal form. -/
theorem probability_normalize {scope : Scope} {d : Destination} (h : (d.normalize scope).Succeeds)
    {p' : Probability} (hp : p' ∈ (d.normalize scope).state.probability) :
    ∃ p ∈ d.probability, (p.exp.normalize scope).outcome = .ok p'.exp := by
  obtain ⟨a, hweight, -⟩ := Attempt.succeeds_andThen.1 h
  rw [normalize, (Attempt.andThen_eq_of_ok hweight _).2] at hp
  change p' ∈ (Attempt.onOption (Probability.normalize scope) d.probability).state at hp
  unfold normalizeProbability at hweight
  cases hd : d.probability with
  | none =>
    rw [hd] at hp
    cases hp
  | some p =>
    rw [hd] at hp hweight
    obtain rfl := Option.some.inj hp
    exact ⟨p, rfl, Attempt.succeeds_replace ⟨a, hweight⟩⟩

/-- Assigned values are replaced by their normal forms. -/
theorem assignments_normalize {scope : Scope} {d : Destination} (h : (d.normalize scope).Succeeds)
    {x' : Assignment} (hx : x' ∈ (d.normalize scope).state.assignments) :
    ∃ x ∈ d.assignments, x'.target = x.target ∧ (x.value.normalize scope).outcome = .ok x'.value := by
  obtain ⟨a, hweight, hassign⟩ := Attempt.succeeds_andThen.1 h
  have hall : ∀ x ∈ d.assignments, (x.normalize scope).Succeeds :=
    Attempt.succeeds_onEach.1 (Attempt.succeeds_mapResult.1 hassign)
  rw [normalize, (Attempt.andThen_eq_of_ok hweight _).2] at hx
  change x' ∈ (Attempt.onEach (Assignment.normalize scope) d.assignments).state at hx
  rw [Attempt.state_onEach hall] at hx
  obtain ⟨x, hmem, rfl⟩ := List.mem_map.1 hx
  exact ⟨x, hmem, rfl, Attempt.succeeds_replace (hall x hmem)⟩

end Destination

namespace Edge

/-- Whether it fails or not, nothing but the guard and the destinations changes. -/
theorem state_normalize (scope : Scope) (e : Edge) :
    ∃ destinations, (e.normalize scope).state =
      { e with guard := (e.normalizeGuard scope).state.guard, destinations } := by
  unfold normalize Attempt.andThen
  cases (e.normalizeGuard scope).outcome with
  | error err => exact ⟨e.destinations, rfl⟩
  | ok _ => exact ⟨_, rfl⟩

/-- A guard is replaced by its normal form. -/
theorem guardExp?_normalize {scope : Scope} {e : Edge} (h : (e.normalize scope).Succeeds) :
    Option.Rel (fun g g' => (g.normalize scope).outcome = .ok g') e.guardExp?
      (e.normalize scope).state.guardExp? := by
  obtain ⟨destinations, hstate⟩ := state_normalize scope e
  obtain ⟨a, hg, -⟩ := Attempt.succeeds_andThen.1 h
  rw [hstate]
  unfold guardExp?
  cases hguard : e.guard with
  | none =>
    simp only [normalizeGuard, hguard, Attempt.onOption, Attempt.mapState, Attempt.ok,
      Option.map_none]
    exact .none
  | some g =>
    simp only [normalizeGuard, hguard, Attempt.onOption, Attempt.mapState, Option.map_some]
      at hg ⊢
    exact .some (Attempt.succeeds_replace ⟨a, hg⟩)

/-- Destinations are normalized each on its own. -/
theorem destinations_normalize {scope : Scope} {e : Edge} (h : (e.normalize scope).Succeeds)
    {d' : Destination} (hd : d' ∈ (e.normalize scope).state.destinations) :
    ∃ d ∈ e.destinations, (d.normalize scope).Succeeds ∧ (d.normalize scope).state = d' := by
  obtain ⟨a, hguard, hdest⟩ := Attempt.succeeds_andThen.1 h
  have hall : ∀ d ∈ e.destinations, (d.normalize scope).Succeeds :=
    Attempt.succeeds_onEach.1 (Attempt.succeeds_mapResult.1 hdest)
  rw [normalize, (Attempt.andThen_eq_of_ok hguard _).2] at hd
  change d' ∈ (Attempt.onEach (Destination.normalize scope) e.destinations).state at hd
  rw [Attempt.state_onEach hall] at hd
  obtain ⟨d, hmem, rfl⟩ := List.mem_map.1 hd
  exact ⟨d, hmem, hall d hmem, rfl⟩

end Edge

/-! ## Automata and models -/

namespace Automaton

theorem succeeds_normalize {globals : Registry} {a : Automaton} :
    (a.normalize globals).Succeeds ↔
      ∀ e ∈ a.edges, (e.normalize { locals := some a.locals, globals }).Succeeds := by
  simp [normalize, Attempt.succeeds_onEach]

theorem state_normalize {globals : Registry} {a : Automaton} (h : (a.normalize globals).Succeeds) :
    (a.normalize globals).state =
      { a with
        edges := a.edges.map fun e =>
          (e.normalize { locals := some a.locals, globals }).state } := by
  simp [normalize, Attempt.mapError, Attempt.mapResult, Attempt.mapState,
    Attempt.state_onEach (succeeds_normalize.1 h)]

end Automaton

namespace Model

theorem succeeds_normalizeAutomata {m : Model} :
    m.normalizeAutomata.Succeeds ↔ ∀ a ∈ m.automata, (a.normalize m.globals).Succeeds := by
  simp [normalizeAutomata, Attempt.succeeds_onEach]

theorem automata_of_normalize {m : Model} (h : m.normalize.Succeeds) :
    ∀ a ∈ m.automata, (a.normalize m.globals).Succeeds := by
  obtain ⟨a, ha, -⟩ := Attempt.succeeds_andThen.1 (Attempt.succeeds_after.1 h)
  exact succeeds_normalizeAutomata.1 ⟨a, ha⟩

theorem state_normalize {m : Model} (h : m.normalize.Succeeds) :
    ∃ properties, m.normalize.state =
      { m with automata := m.automata.map fun a => (a.normalize m.globals).state, properties } := by
  obtain ⟨a, ha, -⟩ := Attempt.succeeds_andThen.1 (Attempt.succeeds_after.1 h)
  have hstate : m.normalize.state = m.normalizeAutomata.state.normalizeProperties.state :=
    (Attempt.andThen_eq_of_ok ha _).2
  rw [hstate]
  simp only [normalizeProperties, normalizeAutomata, Attempt.mapResult, Attempt.mapState,
    Attempt.state_onEach (automata_of_normalize h)]
  exact ⟨_, rfl⟩

end Model

end AutomataNet
