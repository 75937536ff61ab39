import AutomataNet.Model.Expansion
import AutomataNet.Proofs.Outcome
/-!
# What expansion leaves

Expansion works on each edge alone and replaces its destinations only. A model can be expanded
exactly if all its edges can. What it looks for are samples anywhere in an expression
(`Expr.HasSample`).
-/

namespace AutomataNet

/-! ## Samples in an expression -/

namespace Expr

/-- A distribution stands somewhere in the expression. -/
inductive HasSample : Expr → Prop
  | sample (name : String) (args : List Expr) (c : Option String) :
      HasSample (.distribution name args c)
  | operand {op : Op} {operands : List (String × Expr)} {c : Option String} {role : String}
      {e : Expr} : (role, e) ∈ operands → HasSample e → HasSample (.operator op operands c)
  | element {elements : List Expr} {c : Option String} {e : Expr} :
      e ∈ elements → HasSample e → HasSample (.arrayValue elements c)

mutual

theorem samples_iff : ∀ e : Expr, e.samples = true ↔ e.HasSample
  | .literal v c => by
    constructor
    · intro h
      cases h
    · intro h
      cases h
  | .identifier name c => by
    constructor
    · intro h
      cases h
    · intro h
      cases h
  | .operator op operands c => by
    rw [samples, operandsSample_iff operands]
    constructor
    · rintro ⟨role, e, hmem, he⟩
      exact .operand hmem he
    · intro h
      cases h with
      | operand hmem he => exact ⟨_, _, hmem, he⟩
  | .arrayValue elements c => by
    rw [samples, listSamples_iff elements]
    constructor
    · rintro ⟨e, hmem, he⟩
      exact .element hmem he
    · intro h
      cases h with
      | element hmem he => exact ⟨_, hmem, he⟩
  | .distribution name args c => by
    constructor
    · intro _
      exact .sample name args c
    · intro _
      rfl

theorem listSamples_iff : ∀ es : List Expr, listSamples es = true ↔ ∃ e ∈ es, e.HasSample
  | [] => by simp [listSamples]
  | e :: es => by
    rw [listSamples, Bool.or_eq_true, samples_iff e, listSamples_iff es, List.exists_mem_cons_iff]

theorem operandsSample_iff : ∀ operands : List (String × Expr),
    operandsSample operands = true ↔ ∃ role e, (role, e) ∈ operands ∧ e.HasSample
  | [] => by simp [operandsSample]
  | (role, e) :: operands => by
    rw [operandsSample, Bool.or_eq_true, samples_iff e, operandsSample_iff operands]
    constructor
    · rintro (he | ⟨r, x, hx, hs⟩)
      · exact ⟨role, e, List.mem_cons_self, he⟩
      · exact ⟨r, x, List.mem_cons_of_mem _ hx, hs⟩
    · rintro ⟨r, x, hx, hs⟩
      rcases List.mem_cons.1 hx with heq | hx
      · cases heq
        exact .inl hs
      · exact .inr ⟨r, x, hx, hs⟩

end

theorem samples_eq_false_iff {e : Expr} : e.samples = false ↔ ¬ e.HasSample := by
  rw [← samples_iff, Bool.not_eq_true]

theorem not_hasSample_lit (v : Value) : ¬ (lit v).HasSample := by
  intro h
  cases h

theorem not_hasSample_binary {op : Op} {l r : Expr} (hl : ¬ l.HasSample) (hr : ¬ r.HasSample) :
    ¬ (binary op l r).HasSample := by
  intro h
  cases h with
  | operand hmem he =>
    rcases List.mem_cons.1 hmem with heq | hmem
    · cases heq
      exact hl he
    · cases List.mem_singleton.1 hmem
      exact hr he

end Expr

/-! ## Destinations and edges -/

/-- Either nothing is sampled and the destination stays, or there is one for each combination of
outcomes. -/
theorem Destination.expand_eq_ok_iff {cap : Nat} {d : Destination} {ds : List Destination} :
    d.expand cap = .ok ds ↔ d.probability.any (·.exp.samples) = false ∧
      ∃ sampled, sampleAll cap d.assignments = .ok sampled ∧
        ((sampled.all (·.2.isNone) = true ∧ ds = [d]) ∨
        (sampled.all (·.2.isNone) = false ∧ combinationCount sampled ≤ Int64.maxValue.toInt ∧
          ds = (combinations sampled).map fun assignments =>
            { d with
              probability := some (Probability.share d.probability (combinationCount sampled))
              assignments })) := by
  unfold expand
  cases hp : d.probability.any (·.exp.samples) with
  | true => simp
  | false =>
    simp only [Bool.false_eq_true, if_false, true_and, Except.bind_eq_ok_iff]
    apply exists_congr
    intro sampled
    apply and_congr_right
    intro _
    cases hs : sampled.all (·.2.isNone) with
    | true => simp [eq_comm]
    | false =>
      by_cases hc : combinationCount sampled ≤ Int64.maxValue.toInt <;> simp [hc, eq_comm]

theorem Destination.location_of_expand {cap : Nat} {d d' : Destination} {ds : List Destination}
    (h : d.expand cap = .ok ds) (hd : d' ∈ ds) : d'.location = d.location := by
  obtain ⟨-, sampled, -, ⟨-, rfl⟩ | ⟨-, -, rfl⟩⟩ := expand_eq_ok_iff.1 h
  · rw [List.mem_singleton.1 hd]
  · obtain ⟨assignments, -, rfl⟩ := List.mem_map.1 hd
    rfl

/-- Destinations are expanded each on its own. -/
theorem expandDestinations_eq_ok_iff {cap : Nat} {ds : List Destination}
    {groups : List (List Destination)} :
    expandDestinations cap ds = .ok groups ↔
      List.Forall₂ (fun d group => d.expand cap = .ok group) ds groups := by
  induction ds generalizing groups with
  | nil => simp [expandDestinations, eq_comm]
  | cons d ds ih =>
    simp only [expandDestinations, Except.bind_eq_ok_iff, ih, Except.ok.injEq,
      List.forall₂_cons_left_iff]
    constructor
    · rintro ⟨group, hd, groups, hds, rfl⟩
      exact ⟨group, groups, hd, hds, rfl⟩
    · rintro ⟨group, groups, hd, hds, rfl⟩
      exact ⟨group, hd, groups, hds, rfl⟩

/-- An edge that can be expanded gets the destinations of all its destinations. -/
theorem Edge.expand_of_succeeds {cap : Nat} {e : Edge} (h : (e.expand cap).Succeeds) :
    ∃ groups, List.Forall₂ (fun d group => d.expand cap = .ok group) e.destinations groups ∧
      (e.expand cap).state = { e with destinations := groups.flatten } := by
  obtain ⟨n, hn⟩ := h
  unfold expand at hn ⊢
  split at hn
  · cases hn
  · rename_i hguard
    rw [if_neg hguard]
    split at hn
    · cases hn
    · rename_i groups hgroups
      exact ⟨groups, expandDestinations_eq_ok_iff.1 hgroups, rfl⟩

/-- Each destination of an expanded edge comes from one that the edge had. -/
theorem Edge.mem_destinations_expand {cap : Nat} {e : Edge} (h : (e.expand cap).Succeeds)
    {d' : Destination} (hd : d' ∈ (e.expand cap).state.destinations) :
    ∃ d ∈ e.destinations, ∃ ds, d.expand cap = .ok ds ∧ d' ∈ ds := by
  obtain ⟨groups, hgroups, hstate⟩ := expand_of_succeeds h
  rw [hstate] at hd
  dsimp only at hd
  clear hstate
  generalize e.destinations = destinations at hgroups ⊢
  induction hgroups with
  | nil => cases hd
  | @cons d ds destinations groups hexpand _ ih =>
    rcases List.mem_append.1 hd with hd | hd
    · exact ⟨d, by simp, ds, hexpand, hd⟩
    · obtain ⟨x, hx, hrest⟩ := ih hd
      exact ⟨x, by simp [hx], hrest⟩

/-- Whether it fails or not, nothing but the destinations changes. -/
theorem Edge.state_expand (cap : Nat) (e : Edge) :
    ∃ destinations, (e.expand cap).state = { e with destinations } := by
  unfold expand
  split
  · exact ⟨e.destinations, rfl⟩
  · split
    · exact ⟨[], rfl⟩
    · exact ⟨_, rfl⟩

/-! ## Automata and models -/

namespace Automaton

theorem succeeds_expand {cap : Nat} {a : Automaton} :
    (a.expand cap).Succeeds ↔ ∀ e ∈ a.edges, (e.expand cap).Succeeds := by
  simp [expand, Attempt.succeeds_onEach]

theorem state_expand {cap : Nat} {a : Automaton} (h : (a.expand cap).Succeeds) :
    (a.expand cap).state = { a with edges := a.edges.map fun e => (e.expand cap).state } := by
  simp [expand, Attempt.mapError, Attempt.mapResult, Attempt.mapState,
    Attempt.state_onEach (succeeds_expand.1 h)]

end Automaton

namespace Model

theorem succeeds_expand {cap : Nat} {m : Model} :
    (m.expand cap).Succeeds ↔ ∀ a ∈ m.automata, (a.expand cap).Succeeds := by
  simp [expand, Attempt.succeeds_onEach]

theorem state_expand {cap : Nat} {m : Model} (h : (m.expand cap).Succeeds) :
    (m.expand cap).state = { m with automata := m.automata.map fun a => (a.expand cap).state } := by
  simp [expand, Attempt.mapResult, Attempt.mapState, Attempt.state_onEach (succeeds_expand.1 h)]

end Model

end AutomataNet
