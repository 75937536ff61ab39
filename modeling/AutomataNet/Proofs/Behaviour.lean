import AutomataNet.Proofs.Network
import AutomataNet.Proofs.Pruning
/-!
# Pruning and behaviour

An inert automaton may take its action wherever it is, and nothing changes when it does. So a
synchronization can be followed without it exactly when it can be followed with it
(`Aligned.follows_pruned_iff`), and the only steps that pruning loses are those of synchronizations
in which nobody else takes part.
-/

namespace AutomataNet

/-! ## Inert automata -/

section Inert

variable {α : Type} [DecidableEq α] (I : Interpretation α)

theorem Edge.enabled_of_isUnguarded {e : Edge} (h : e.isUnguarded = true) (σ : Store α) :
    e.Enabled I σ := by
  intro g hg
  have htrue := isUnguarded_iff.1 h g hg
  unfold Expr.isTrue at htrue
  split at htrue
  · rfl
  · cases htrue

/-- An idle edge leads back to where it comes from. -/
theorem Edge.enter_of_isIdle {e : Edge} (h : e.isIdle = true) {d : Destination}
    (hd : d ∈ e.destinations) {l : Local α} (hl : e.location = l.location) : d.enter I l = l := by
  have hidle := List.all_eq_true.1 h d hd
  simp only [Destination.isIdle, Bool.and_eq_true, decide_eq_true_eq] at hidle
  obtain ⟨⟨hloc, -⟩, hassign⟩ := hidle
  rw [Destination.enter, hloc, hl, I.assign_identity hassign]

namespace Automaton

variable {a : Automaton} {action : String}

theorem isInert_edges (h : a.isInert action = true) {e : Edge} (he : e ∈ a.edges)
    (hact : e.action = some action) : e.isIdle = true := by
  simp only [isInert, Bool.and_eq_true, List.all_eq_true] at h
  exact h.1.2 e (List.mem_filter.2 ⟨he, by simpa using hact⟩)

/-- An inert automaton does not move. -/
theorem Moves.eq_of_isInert {I : Interpretation α} {l l' : Local α}
    (hm : a.Moves I (some action) l l') (h : a.isInert action = true) : l' = l := by
  obtain ⟨e, he, hact, hloc, -, d, hd, rfl⟩ := hm
  exact e.enter_of_isIdle I (isInert_edges h he hact) hd hloc

/-- An inert automaton may always take the action. -/
theorem moves_of_isInert (h : a.isInert action = true) (hne : ∀ e ∈ a.edges, e.destinations ≠ [])
    {l : Local α} (hl : a.hasLocation l.location = true) : a.Moves I (some action) l l := by
  obtain ⟨loc, hloc, hname⟩ := List.any_eq_true.1 hl
  rw [decide_eq_true_eq] at hname
  have hall := h
  simp only [isInert, Bool.and_eq_true, List.all_eq_true] at hall
  obtain ⟨e, he, hu⟩ := List.any_eq_true.1 (hall.2 loc hloc)
  obtain ⟨he, hact⟩ := List.mem_filter.1 he
  simp only [decide_eq_true_eq, Bool.and_eq_true] at hact hu
  have hel : e.location = l.location := hu.1.trans hname
  obtain ⟨d, hd⟩ := List.exists_mem_of_ne_nil _ (hne e he)
  exact ⟨e, he, hact, hel, e.enabled_of_isUnguarded I hu.2 _, d, hd,
    (e.enter_of_isIdle I (isInert_edges h he hact) hd hel).symm⟩

/-- Pruning keeps all edges but those that are dropped. -/
theorem moves_pruned_iff (actions : List String) {label : Option String}
    (h : label.any (a.isDropped actions) = false) {l l' : Local α} :
    (a.pruned actions).Moves I label l l' ↔ a.Moves I label l l' := by
  constructor
  · rintro ⟨e, he, hrest⟩
    exact ⟨e, (List.mem_filter.1 he).1, hrest⟩
  · rintro ⟨e, he, hact, hrest⟩
    exact ⟨e, List.mem_filter.2 ⟨he, by rw [hact, h]; rfl⟩, hact, hrest⟩

end Automaton

end Inert

/-! ## The network after pruning -/

namespace Model

variable {m : Model} (actions : List String)

theorem automaton?_pruned (name : String) :
    (m.pruned actions).automaton? name = (m.automaton? name).map (·.pruned actions) := by
  simp only [automaton?, pruned, List.find?_map]
  rfl

/-- The entry of an automaton stays, unless the automaton is dropped. -/
theorem Aligned.entry?_pruned (h : m.Aligned) {v : Sync} (hv : v ∈ m.system.syncs) {name : String}
    {a : Automaton} (ha : m.automaton? name = some a) :
    (m.pruned actions).system.entry? (v.pruned actions m.automata) name =
      (m.system.entry? v name).filter (!a.isDropped actions ·) := by
  rw [h.automaton?_eq, Option.bind_eq_some_iff] at ha
  obtain ⟨k, hk, hka⟩ := ha
  have hlt : k < v.participants.length := by
    rw [h.length_participants hv]
    exact (List.getElem?_eq_some_iff.1 hka).1
  have hidx : (m.pruned actions).system.elementIndex? name = some k := hk
  simp [Composition.entry?, hk, hidx, Sync.pruned, List.getElem?_zipWith, hka,
    List.getElem?_eq_getElem hlt]

variable {α : Type} [DecidableEq α] (I : Interpretation α)

/-- A synchronization is followed after pruning as it was before: an automaton that has been
dropped rests, and before it moved without a change. -/
theorem Aligned.follows_pruned_iff (h : m.Aligned)
    (hne : ∀ a ∈ m.automata, ∀ e ∈ a.edges, e.destinations ≠ []) {v : Sync}
    (hv : v ∈ m.system.syncs) {s t : NetState α} (hs : m.Located s) :
    (m.pruned actions).Follows I (v.pruned actions m.automata) s t ↔ m.Follows I v s t := by
  refine forall_congr' fun name => ?_
  rw [automaton?_pruned]
  cases ha : m.automaton? name with
  | none => simp
  | some a =>
    obtain ⟨hm, rfl⟩ := (find?_name_eq_some_iff h.names).1 ha
    rw [h.entry?_pruned actions hv ha]
    cases hentry : m.system.entry? v a.name with
    | none => simp
    | some action =>
      by_cases hd : a.isDropped actions action = true
      · -- it rests in the pruned network, and takes an idle edge in the other
        have hinert : a.isInert action = true := (Bool.and_eq_true_iff.1 hd).2
        simp only [Option.map_some, Option.filter_some, hd, Bool.not_true, Bool.false_eq_true,
          if_false]
        constructor
        · intro ht
          rw [ht]
          exact a.moves_of_isInert I hinert (hne a hm) (hs a hm)
        · intro ht
          exact ht.eq_of_isInert hinert
      · simp only [Option.map_some, Option.filter_some, hd, Bool.not_false, if_true]
        exact a.moves_pruned_iff I actions (by simpa using hd)

/-- Where nobody takes part, nothing happens. -/
theorem Follows.eq_of_isEmpty {I : Interpretation α} {v : Sync} {s t : NetState α}
    (h : m.Follows I v s t) (he : v.isEmpty = true) : s = t := by
  funext name
  have hn := h name
  have hentry : m.system.entry? v name = none := by
    unfold Composition.entry?
    cases m.system.elementIndex? name with
    | none => rfl
    | some k =>
      cases hk : v.participants[k]? with
      | none => simp [hk]
      | some entry =>
        have := List.all_eq_true.1 he entry (List.mem_of_getElem? hk)
        simp_all
  rw [hentry] at hn
  cases hm : m.automaton? name <;> rw [hm] at hn <;> exact hn.symm

/-! ## Main theorem -/

/-- Pruning keeps the behaviour of a network up to steps that change nothing. It succeeds, every
step of the pruned network is one of the network with the same result, and a step of the network
that the pruned one has lost leads from a state to itself. -/
theorem prune_preserves_behaviour (m : Model) (actions : List String) (h : m.Aligned)
    (hne : ∀ a ∈ m.automata, ∀ e ∈ a.edges, e.destinations ≠ []) :
    (m.prune actions).outcome = .ok () ∧
      ∀ (s t : NetState α) (result : Option String), m.Located s →
        ((m.prune actions).state.Step I s result t → m.Step I s result t) ∧
        (m.Step I s result t → (m.prune actions).state.Step I s result t ∨ s = t) := by
  obtain ⟨hok, hstate⟩ := h.prune_eq actions
  refine ⟨hok, ?_⟩
  rw [hstate]
  intro s t result hs
  constructor
  · intro hstep
    cases hstep with
    | silent ha hmoves =>
      rw [automaton?_pruned, Option.map_eq_some_iff] at ha
      obtain ⟨a, ha, rfl⟩ := ha
      exact .silent ha ((a.moves_pruned_iff I actions rfl).1 hmoves)
    | sync hv' hfollows =>
      obtain ⟨v, hv, rfl⟩ := List.mem_map.1 (List.mem_filter.1 hv').1
      exact .sync (v := v) hv ((h.follows_pruned_iff actions I hne hv hs).1 hfollows)
  · intro hstep
    cases hstep with
    | @silent name a l ha hmoves =>
      refine .inl (.silent ?_ ((a.moves_pruned_iff I actions rfl).2 hmoves))
      rw [automaton?_pruned, ha, Option.map_some]
    | @sync _ v hv hfollows =>
      have hf := (h.follows_pruned_iff actions I hne hv hs).2 hfollows
      -- the synchronization is gone if only inert automata took part in it
      by_cases hempty : (v.pruned actions m.automata).isEmpty = true
      · exact .inr (hf.eq_of_isEmpty hempty)
      · refine .inl (Step.sync (v := v.pruned actions m.automata) ?_ hf)
        exact List.mem_filter.2 ⟨List.mem_map_of_mem hv, by simpa using hempty⟩

/-- A clock that ticks and counts, and a listener that does not care. -/
def ticking : Model where
  name := "ticking"
  automata := [
    { Automaton.single "clock" "run" with
      edges := [{ location := "run", action := some "tick_on_send", destinations :=
        [{ location := "run", assignments := [⟨.var "n", .ofInt 1, none⟩] }] }] },
    { Automaton.single "listener" "idle" with
      edges := [{ location := "idle", action := some "tick_on_receive", destinations :=
        [{ location := "idle", assignments := [⟨.var "x", .var "x", none⟩] }] }] }]
  system :=
    { elements := [{ automaton := "clock" }, { automaton := "listener" }]
      syncs := [{ participants := [some "tick_on_send", some "tick_on_receive"],
                  result := some "tick" }] }

theorem ticking_aligned : ticking.Aligned where
  names := by decide
  elements := by decide
  entries := by decide

/-- Both automata at the start, with all variables 0. -/
def stopped : NetState Unit := fun name =>
  ⟨if name = "clock" then "run" else "idle", fun _ => .int 0⟩

/-- The clock has ticked once. -/
def ticked : NetState Unit :=
  Function.update stopped "clock" ⟨"run", Function.update (fun _ => .int 0) "n" (.int 1)⟩

theorem ticking_located : ticking.Located stopped := by
  intro a ha
  simp only [ticking, List.mem_cons, List.not_mem_nil, or_false] at ha
  rcases ha with rfl | rfl <;> decide

/-- The listener is out of the synchronization, and the clock ticks alone. -/
theorem ticking_pruned_step :
    (ticking.pruned ["tick_on_receive", "tick_on_send"]).Step listing stopped (some "tick")
      ticked := by
  refine Step.sync (v := { participants := [some "tick_on_send", none], result := some "tick" })
    (by decide) ?_
  intro name
  by_cases hc : name = "clock"
  · subst hc
    exact ⟨_, List.mem_singleton.2 rfl, rfl, rfl, by simp [Edge.guardExp?, Edge.Enabled], _,
      List.mem_singleton.2 rfl, rfl⟩
  · have hentry : (ticking.pruned ["tick_on_receive", "tick_on_send"]).system.entry?
        { participants := [some "tick_on_send", none], result := some "tick" } name = none := by
      by_cases hl : name = "listener"
      · subst hl
        decide
      · simp [Composition.entry?, Composition.elementIndex?, pruned, ticking, List.findIdx?_cons,
          Ne.symm hc, Ne.symm hl]
    rw [hentry]
    cases (ticking.pruned ["tick_on_receive", "tick_on_send"]).automaton? name <;>
      exact Function.update_of_ne hc ..

theorem prune_preserves_behaviour_ticking :
    (ticking.prune ["tick_on_receive", "tick_on_send"]).outcome = .ok () ∧
      ticking.Step listing stopped (some "tick") ticked := by
  obtain ⟨hok, hsteps⟩ := prune_preserves_behaviour listing ticking
    ["tick_on_receive", "tick_on_send"] ticking_aligned (by simp [ticking])
  refine ⟨hok, (hsteps stopped ticked (some "tick") ticking_located).1 ?_⟩
  rw [(ticking_aligned.prune_eq _).2]
  exact ticking_pruned_step

end Model

end AutomataNet
