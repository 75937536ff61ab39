import AutomataNet.Proofs.Pruning
/-!
# Exactly the inert go

Which automata are inert is decided before anything is removed, and then the edges and entries go
one action after the other. Removing the edges of one action does not make an automaton inert on
another one, so in the end nobody is inert any more (`Automaton.not_inert_pruned`) and there is
nothing left to prune (`Model.Aligned.pruned_pruned`).
-/

namespace AutomataNet

/-! ## Labels to remove -/

namespace Automaton

/-- The edges with the action lead back and change no variable, and in every location there is one
that can always be taken. -/
structure Inert (a : Automaton) (action : String) : Prop where
  carries : ∃ e ∈ a.edges, e.action = some action
  idles : ∀ e ∈ a.edges, e.action = some action → ∀ d ∈ e.destinations,
    d.location = e.location ∧ (∀ p, d.probability = some p → p.exp.isUnitWeight = true) ∧
      ∀ s ∈ d.assignments, s.isIdentity = true
  always : ∀ l ∈ a.locations, ∃ e ∈ a.edges, e.action = some action ∧ e.location = l.name ∧
    ∀ g ∈ e.guardExp?, g.isTrue = true

theorem mem_edgesWithAction_iff {a : Automaton} {action : String} {e : Edge} :
    e ∈ a.edgesWithAction action ↔ e ∈ a.edges ∧ e.action = some action := by
  simp [edgesWithAction]

theorem isInert_iff {a : Automaton} {action : String} :
    a.isInert action = true ↔ a.Inert action := by
  have hcarries : a.hasAction action = true ↔ ∃ e ∈ a.edges, e.action = some action := by
    simp [hasAction]
  have hidle (e : Edge) : e.isIdle = true ↔ ∀ d ∈ e.destinations, d.location = e.location ∧
      (∀ p, d.probability = some p → p.exp.isUnitWeight = true) ∧
        ∀ s ∈ d.assignments, s.isIdentity = true := by
    simp [Edge.isIdle, Destination.isIdle, Option.all_eq_true, and_assoc]
  simp only [isInert, Bool.and_eq_true, List.all_eq_true, List.any_eq_true, decide_eq_true_eq,
    mem_edgesWithAction_iff, hcarries, hidle, Edge.isUnguarded_iff, and_imp, and_assoc]
  exact ⟨fun h => ⟨h.1, h.2.1, h.2.2⟩, fun h => ⟨h.carries, h.idles, h.always⟩⟩

instance (a : Automaton) (action : String) : Decidable (a.Inert action) :=
  decidable_of_iff _ isInert_iff

/-- The label is one of the actions, and the automaton is inert on it. -/
def IdlesOn (actions : List String) (a : Automaton) (label : Option String) : Prop :=
  ∃ action ∈ actions, label = some action ∧ a.Inert action

instance (actions : List String) (a : Automaton) (label : Option String) :
    Decidable (a.IdlesOn actions label) :=
  inferInstanceAs (Decidable (∃ action ∈ actions, label = some action ∧ a.Inert action))

theorem any_isDropped_iff {actions : List String} {a : Automaton} {label : Option String} :
    label.any (a.isDropped actions) = true ↔ a.IdlesOn actions label := by
  cases label with
  | none => simp [IdlesOn]
  | some action => simp [IdlesOn, isDropped, isInert_iff]

theorem not_idlesOn {actions : List String} {a : Automaton}
    (h : ∀ action ∈ actions, ¬ a.Inert action) (label : Option String) :
    ¬ a.IdlesOn actions label := by
  rintro ⟨action, hmem, -, hinert⟩
  exact h action hmem hinert

theorem pruned_eq (actions : List String) (a : Automaton) :
    a.pruned actions =
      { a with edges := a.edges.filter fun e => ¬ a.IdlesOn actions e.action } := by
  unfold pruned
  congr 1
  apply List.filter_congr
  intro e _
  rw [Bool.eq_iff_iff, decide_eq_true_eq, ← any_isDropped_iff, Bool.not_eq_true', Bool.not_eq_true]

end Automaton

/-- The second synchronization is the first one without the entries that an automaton idles on; the
entries stand in the order of the automata. -/
structure Sync.ClearsTo (actions : List String) (automata : List Automaton) (v v' : Sync) :
    Prop where
  result : v'.result = v.result
  comment : v'.comment = v.comment
  length : v'.participants.length = v.participants.length
  entries : ∀ (k : Nat) (a : Automaton) (entry : Option String), automata[k]? = some a →
    v.participants[k]? = some entry →
      v'.participants[k]? = some (if a.IdlesOn actions entry then none else entry)

theorem Sync.clearsTo_pruned (actions : List String) {automata : List Automaton} {v : Sync}
    (h : v.participants.length = automata.length) :
    Sync.ClearsTo actions automata v (v.pruned actions automata) where
  result := rfl
  comment := rfl
  length := by simp [pruned, h]
  entries := by
    intro k a entry ha hentry
    have hfilter : entry.filter (!a.isDropped actions ·) =
        if a.IdlesOn actions entry then none else entry := by
      cases entry with
      | none => simp
      | some action =>
        simp only [← Automaton.any_isDropped_iff, Option.filter_some, Option.any_some]
        cases a.isDropped actions action <;> rfl
    rw [← hfilter]
    simp only [pruned, List.getElem?_zipWith, ha, hentry]

theorem Sync.not_isEmpty (v : Sync) : (!v.isEmpty) = v.participants.any (·.isSome) := by
  simp [isEmpty, List.not_all_eq_any_not]

/-! ## Nothing left to remove -/

namespace Automaton

theorem hasAction_eq (a : Automaton) (action : String) :
    a.hasAction action = !(a.edgesWithAction action).isEmpty := by
  rw [Bool.eq_iff_iff]
  simp [hasAction, edgesWithAction]

/-- Whether an automaton is inert on an action shows in the edges that carry it. -/
theorem isInert_congr {a b : Automaton} {action : String} (hl : a.locations = b.locations)
    (he : a.edgesWithAction action = b.edgesWithAction action) :
    a.isInert action = b.isInert action := by
  simp only [isInert, hasAction_eq, hl, he]

/-- A pruned automaton is not inert on any of the actions. -/
theorem not_inert_pruned {actions : List String} (a : Automaton) {action : String}
    (h : action ∈ actions) : ¬ (a.pruned actions).Inert action := by
  rw [← isInert_iff, Bool.not_eq_true]
  cases hd : a.isDropped actions action with
  | true =>
    -- the edges that carried the action are gone
    have hnone : (a.pruned actions).hasAction action = false := by
      simp only [hasAction, pruned, List.any_eq_false, decide_eq_true_eq]
      rintro e he haction
      have hkept := (List.mem_filter.1 he).2
      simp [haction, hd] at hkept
    simp [isInert, hnone]
  | false =>
    -- they are all there, and so it is inert now only if it was before
    have hsame : (a.pruned actions).isInert action = a.isInert action :=
      isInert_congr rfl (edgesWithAction_pruned hd)
    rw [hsame]
    simpa [isDropped, h] using hd

theorem pruned_of_not_inert {actions : List String} {a : Automaton}
    (h : ∀ action ∈ actions, ¬ a.Inert action) : a.pruned actions = a := by
  rw [pruned_eq, List.filter_eq_self.2 fun e _ => decide_eq_true (not_idlesOn h e.action)]

end Automaton

theorem Sync.pruned_of_not_inert {actions : List String} {automata : List Automaton}
    (h : ∀ a ∈ automata, ∀ action ∈ actions, ¬ a.Inert action) {v : Sync}
    (hlen : v.participants.length = automata.length) : v.pruned actions automata = v := by
  have hclears := Sync.clearsTo_pruned actions hlen
  have hentries : (v.pruned actions automata).participants = v.participants := by
    apply List.ext_getElem?
    intro k
    by_cases hk : k < v.participants.length
    · have hka : k < automata.length := hlen ▸ hk
      have hbusy : ¬ (automata[k]).IdlesOn actions v.participants[k] :=
        Automaton.not_idlesOn (h _ (List.getElem_mem hka)) _
      rw [hclears.entries k _ _ (List.getElem?_eq_getElem hka) (List.getElem?_eq_getElem hk),
        if_neg hbusy, List.getElem?_eq_getElem hk]
    · rw [List.getElem?_eq_none (by rw [hclears.length]; omega), List.getElem?_eq_none (by omega)]
  show { v with participants := (v.pruned actions automata).participants } = v
  rw [hentries]

namespace Model

theorem not_inert_of_mem_pruned {actions : List String} {m : Model} {a : Automaton}
    (ha : a ∈ (m.pruned actions).automata) {action : String} (h : action ∈ actions) :
    ¬ a.Inert action := by
  obtain ⟨b, -, rfl⟩ := List.mem_map.1 ha
  exact b.not_inert_pruned h

/-- A model is as pruning leaves it if nobody is inert and all synchronizations are followed. -/
theorem Aligned.pruned_of_not_inert {m : Model} (h : m.Aligned) {actions : List String}
    (hbusy : ∀ a ∈ m.automata, ∀ action ∈ actions, ¬ a.Inert action)
    (hfull : ∀ v ∈ m.system.syncs, v.isEmpty = false) : m.pruned actions = m := by
  have hautomata : m.automata.map (·.pruned actions) = m.automata := by
    rw [List.map_congr_left fun a ha => Automaton.pruned_of_not_inert (hbusy a ha), List.map_id']
  have hsyncs : m.system.syncs.map (·.pruned actions m.automata) = m.system.syncs := by
    rw [List.map_congr_left fun v hv =>
      Sync.pruned_of_not_inert hbusy (h.length_participants hv), List.map_id']
  have hfollowed : m.system.syncs.filter (!·.isEmpty) = m.system.syncs :=
    List.filter_eq_self.2 fun v hv => by simp [hfull v hv]
  rw [pruned, hautomata, hsyncs, hfollowed]

/-- Pruning leaves nothing to prune. -/
theorem Aligned.pruned_pruned {m : Model} (h : m.Aligned) (actions : List String) :
    (m.pruned actions).pruned actions = m.pruned actions := by
  apply (h.pruned actions).pruned_of_not_inert
  · intro a ha action hmem
    exact not_inert_of_mem_pruned ha hmem
  · intro v hv
    simpa using (List.mem_filter.1 hv).2

/-! ## Main theorem -/

/-- Pruning removes the edges and the entries whose label is one of the actions and belongs to an
automaton that is inert on it, then the synchronizations in which nobody is left, and it changes
nothing else. After that no automaton is inert on any of the actions, and pruning again changes
nothing at all. -/
theorem prune_removes_exactly_inert (m : Model) (actions : List String) (h : m.Aligned) :
    (m.prune actions).outcome = .ok () ∧
    (∃ cleared, List.Forall₂ (Sync.ClearsTo actions m.automata) m.system.syncs cleared ∧
      (m.prune actions).state =
        { m with
          automata := m.automata.map fun a =>
            { a with edges := a.edges.filter fun e => ¬ a.IdlesOn actions e.action }
          system := { m.system with
            syncs := cleared.filter fun v => v.participants.any (·.isSome) } }) ∧
    (∀ a ∈ (m.prune actions).state.automata, ∀ action ∈ actions, ¬ a.Inert action) ∧
    ((m.prune actions).state.prune actions).outcome = .ok () ∧
    ((m.prune actions).state.prune actions).state = (m.prune actions).state := by
  obtain ⟨hok, hstate⟩ := h.prune_eq actions
  obtain ⟨hagain, hsame⟩ := (h.pruned actions).prune_eq actions
  rw [hstate]
  refine ⟨hok, ⟨m.system.syncs.map (·.pruned actions m.automata), ?_, ?_⟩, ?_, hagain, ?_⟩
  · rw [List.forall₂_map_right_iff, List.forall₂_same]
    intro v hv
    exact Sync.clearsTo_pruned actions (h.length_participants hv)
  · simp only [pruned, Automaton.pruned_eq, Sync.not_isEmpty]
  · intro a ha action hmem
    exact not_inert_of_mem_pruned ha hmem
  · rw [hsame, h.pruned_pruned]

/-- A bell that counts, a camera that takes no notice of the bell nor of the lamp, and a lamp that
nothing depends on. -/
def lobby : Model where
  name := "lobby"
  automata := [
    { Automaton.single "bell" "still" with
      edges := [
        { location := "still"
          action := some "ring_on_send"
          destinations := [
            { location := "still"
              assignments := [⟨.var "rings", .ofInt 1, none⟩] }] }] },
    { Automaton.single "camera" "film" with
      edges := [
        { location := "film"
          action := some "ring_on_receive"
          destinations := [{ location := "film" }] },
        { location := "film"
          action := some "zoom"
          destinations := [{ location := "film" }] },
        { location := "film"
          action := some "dim_on_receive"
          guard := some { exp := .lit (.bool true) }
          destinations := [{ location := "film" }] }] },
    { Automaton.single "lamp" "lit" with
      edges := [
        { location := "lit"
          action := some "dim_on_send"
          destinations := [{ location := "lit" }] }] }]
  system :=
    { elements := [{ automaton := "bell" }, { automaton := "camera" }, { automaton := "lamp" }]
      syncs := [
        { participants := [some "ring_on_send", some "ring_on_receive", none]
          result := some "ring" },
        { participants := [none, some "dim_on_receive", some "dim_on_send"]
          result := some "dim" }] }

def lobbyLabels : List String :=
  ["dim_on_receive", "dim_on_send", "ring_on_receive", "ring_on_send"]

/-- The camera keeps the edge that no event is about, and only the bell goes on to ring. -/
theorem prune_removes_exactly_inert_lobby :
    lobby.Aligned ∧
    (lobby.prune lobbyLabels).state.automata.map (·.actions) = [["ring_on_send"], ["zoom"], []] ∧
    (lobby.prune lobbyLabels).state.system.syncs =
      [{ participants := [some "ring_on_send", none, none], result := some "ring" }] ∧
    (∀ a ∈ (lobby.prune lobbyLabels).state.automata, ∀ action ∈ lobbyLabels,
      ¬ a.Inert action) ∧
    ((lobby.prune lobbyLabels).state.prune lobbyLabels).state =
      (lobby.prune lobbyLabels).state := by
  have haligned : lobby.Aligned := ⟨by decide, by decide, by decide⟩
  obtain ⟨-, -, hbusy, -, hsame⟩ := prune_removes_exactly_inert lobby lobbyLabels haligned
  exact ⟨haligned, by decide, by decide, hbusy, hsame⟩

end Model

end AutomataNet
