import AutomataNet.Proofs.Assembly
import AutomataNet.Proofs.Expansion
/-!
# The order of the statecharts

What becomes of an automaton depends on its own edges and on the event table, and the table does not
depend on the order in which the automata were recorded. A synchronization likewise gives each
automaton its part by name. So a different order of statecharts only reorders the automata, and the
columns of the synchronizations with them.
-/

namespace AutomataNet

/-! ## Parts of a synchronization -/

namespace EventTable

/-- An automaton that is ready for all it receives. -/
def enabled (t : EventTable) (a : Automaton) : Automaton :=
  t.entries.foldl (fun a x => x.enable a) a

/-- The labels that take part in synchronizations. -/
def labels (t : EventTable) : List String := Model.collectLabels t.entries []

/-- Each event with each of its senders. -/
def sendings (t : EventTable) : List (EventEntry × String) :=
  t.entries.flatMap fun x => x.senders.map fun sender => (x, sender)

/-- What an automaton does in a sending, unless it is inert. -/
def part (t : EventTable) (p : EventEntry × String) (a : Automaton) : Option String :=
  (p.1.part p.2 a.name).filter (!(t.enabled a).isDropped t.labels ·)

/-- The synchronization of a sending, among the given automata. -/
def vector (t : EventTable) (automata : List Automaton) (p : EventEntry × String) : Sync :=
  { participants := automata.map (t.part p), result := some p.1.event }

/-- Someone has a part in the sending. -/
def isFollowed (t : EventTable) (automata : List Automaton) (p : EventEntry × String) : Bool :=
  automata.any fun a => (t.part p a).isSome

theorem isEmpty_vector (t : EventTable) (automata : List Automaton) (p : EventEntry × String) :
    (t.vector automata p).isEmpty = !t.isFollowed automata p := by
  simp only [vector, Sync.isEmpty, isFollowed, List.all_map, List.not_any_eq_all_not]
  congr 1
  funext a
  cases h : t.part p a <;> simp [h]

theorem ofAutomata_eq_of_perm {automata automata' : List Automaton}
    (h : automata.Perm automata') : ofAutomata automata = ofAutomata automata' := by
  refine (sorted_ofAutomata automata).ext (sorted_ofAutomata automata') ?_
  intro role event name
  simp only [takes_ofAutomata, h.mem_iff]

end EventTable

namespace Assembler

theorem automata_composed (s : Assembler) (automata : List Automaton) :
    (s.composed automata).automata = automata.map fun a =>
      ((EventTable.ofAutomata automata).enabled a).pruned
        (EventTable.ofAutomata automata).labels := by
  simp [composed, synced, Model.pruned, Model.synchronized, Model.withElements, EventTable.enabled,
    EventTable.labels]

theorem elements_composed (s : Assembler) (automata : List Automaton) :
    (s.composed automata).system.elements = automata.map fun a => { automaton := a.name } := by
  simp [composed, synced, Model.pruned, Model.synchronized, Model.withElements]

theorem syncs_composed (s : Assembler) (automata : List Automaton) :
    (s.composed automata).system.syncs =
      ((EventTable.ofAutomata automata).sendings.filter
        ((EventTable.ofAutomata automata).isFollowed automata)).map
        ((EventTable.ofAutomata automata).vector automata) := by
  simp only [composed, synced, Model.pruned, Model.synchronized, Model.withElements,
    automata_start_join, syncs_start_join, List.nil_append]
  generalize EventTable.ofAutomata automata = t
  have hvectors : (t.entries.flatMap (·.vectors (automata.map (·.name)))).map
      (·.pruned t.labels (automata.map t.enabled)) = t.sendings.map (t.vector automata) := by
    simp only [EventTable.sendings, List.map_flatMap, EventEntry.vectors, List.map_map]
    simp only [Function.comp_def, Sync.pruned, EventTable.vector, List.zipWith_map,
      List.zipWith_self]
    rfl
  -- a synchronization is left without participants exactly if nobody follows the sending
  have hfilter : (fun v : Sync => !v.isEmpty) ∘ t.vector automata = t.isFollowed automata := by
    funext p
    simp [EventTable.isEmpty_vector]
  rw [← hfilter, ← List.filter_map, ← hvectors]
  rfl

theorem actions_composed (s : Assembler) (automata : List Automaton) :
    (s.composed automata).actions =
      (automata.flatMap (·.actions) ++
        (EventTable.ofAutomata automata).entries.flatMap (·.declared)).foldl declareAction [] := by
  simp [composed, synced, Model.pruned, Model.synchronized, Model.withElements, Model.join,
    start_eq, List.foldl_append]

end Assembler

/-! ## Declared actions -/

theorem mem_foldl_declareAction {names : List String} {action : Action} :
    action ∈ names.foldl declareAction [] ↔ action.comment = none ∧ action.name ∈ names := by
  induction names using List.reverseRecOn generalizing action with
  | nil => simp
  | append_singleton names name ih =>
    rw [List.foldl_append, List.foldl_cons, List.foldl_nil, declareAction]
    split
    · rename_i hany
      obtain ⟨b, hb, hname⟩ := List.any_eq_true.1 hany
      have hmem : name ∈ names := by
        rw [← of_decide_eq_true hname]
        exact (ih.1 hb).2
      rw [ih, List.mem_append, List.mem_singleton]
      grind
    · obtain ⟨n, c⟩ := action
      rw [List.mem_append, ih, List.mem_append, List.mem_singleton, List.mem_singleton,
        Action.mk.injEq]
      grind

theorem nodup_foldl_declareAction (names : List String) :
    ((names.foldl declareAction []).map (·.name)).Nodup := by
  induction names using List.reverseRecOn with
  | nil => simp
  | append_singleton names name ih =>
    rw [List.foldl_append, List.foldl_cons, List.foldl_nil, declareAction]
    split
    · exact ih
    · rename_i hnew
      rw [List.map_append, List.nodup_append]
      refine ⟨ih, by simp, ?_⟩
      simpa using hnew

/-! ## Two orders -/

section Perm

variable {automata automata' : List Automaton} (hp : automata.Perm automata')

include hp

theorem Assembler.actions_composed_perm (s : Assembler) :
    (s.composed automata).actions.Perm (s.composed automata').actions := by
  have hnodup : ∀ automata, (s.composed automata).actions.Nodup := by
    intro automata
    rw [s.actions_composed]
    exact (nodup_foldl_declareAction _).of_map
  rw [List.perm_ext_iff_of_nodup (hnodup _) (hnodup _)]
  intro action
  simp only [s.actions_composed, mem_foldl_declareAction, List.mem_append, List.mem_flatMap,
    EventTable.ofAutomata_eq_of_perm hp, hp.mem_iff]

theorem find?_name_perm (hn : (automata.map (·.name)).Nodup) (name : String) :
    automata.find? (·.name = name) = automata'.find? (·.name = name) := by
  have hn' : (automata'.map (·.name)).Nodup := (hp.map _).nodup_iff.1 hn
  apply Option.ext
  intro a
  rw [Model.find?_name_eq_some_iff hn, Model.find?_name_eq_some_iff hn', hp.mem_iff]

omit hp in
/-- The part of an automaton is found by its name. -/
theorem Assembler.entry?_vector (s : Assembler) (automata : List Automaton) (t : EventTable)
    (p : EventEntry × String) (name : String) :
    (s.composed automata).system.entry? (t.vector automata p) name =
      (automata.find? (·.name = name)).bind (t.part p) := by
  have hindex : (s.composed automata).system.elementIndex? name =
      automata.findIdx? (·.name = name) := by
    simp [Composition.elementIndex?, s.elements_composed, List.findIdx?_map, Function.comp_def]
  rw [Composition.entry?, hindex, List.find?_eq_bind_findIdx?_getElem?, Option.bind_assoc]
  congr 1
  funext i
  rw [EventTable.vector, List.getElem?_map]
  cases automata[i]? <;> rfl

theorem Assembler.succeeds_expand_perm (s : Assembler) (cap : Nat) :
    ((s.composed automata).expand cap).Succeeds ↔ ((s.composed automata').expand cap).Succeeds := by
  simp only [Model.succeeds_expand, s.automata_composed, EventTable.ofAutomata_eq_of_perm hp,
    (hp.map _).mem_iff]

/-- The synchronizations agree one by one. -/
theorem Assembler.syncs_composed_perm (s : Assembler) (hn : (automata.map (·.name)).Nodup) :
    List.Forall₂ (fun v v' => v.result = v'.result ∧ ∀ name,
        (s.composed automata).system.entry? v name = (s.composed automata').system.entry? v' name)
      (s.composed automata).system.syncs (s.composed automata').system.syncs := by
  have hfollowed : ∀ t : EventTable, t.isFollowed automata = t.isFollowed automata' := by
    intro t
    funext p
    exact hp.any_eq
  rw [s.syncs_composed, s.syncs_composed, EventTable.ofAutomata_eq_of_perm hp, hfollowed,
    List.forall₂_map_left_iff, List.forall₂_map_right_iff, List.forall₂_same]
  intro p _
  refine ⟨rfl, fun name => ?_⟩
  rw [s.entry?_vector, s.entry?_vector, find?_name_perm hp hn]

end Perm

/-! ## Statecharts -/

theorem automataOf_eq_map {capacity : Nat} {charts : List Chart}
    (h : ∀ c ∈ charts, (c.automaton? capacity).isSome = true) :
    automataOf capacity charts = charts.map fun c => (c.automaton? capacity).getD default := by
  unfold automataOf
  rw [← List.filterMap_eq_map]
  apply List.filterMap_congr
  intro c hc
  obtain ⟨a, ha⟩ := Option.isSome_iff_exists.1 (h c hc)
  simp [ha]

/-- Each statechart on its own becomes an automaton of the assembled model. -/
theorem Assembler.automata_of_assemble {s : Assembler} {charts : List Chart} {capacity : Nat}
    {m : Model} (h : (s.assemble charts capacity).outcome = .ok m) {t : EventTable}
    (ht : EventTable.ofAutomata (automataOf capacity charts) = t) :
    m.automata = charts.map fun c =>
      (((t.enabled ((c.automaton? capacity).getD default)).pruned t.labels).expand
        Model.expansionCap).state := by
  obtain ⟨hall, -, he, rfl⟩ := assemble_eq_ok_iff.1 h
  rw [Model.state_expand he, s.automata_composed, ht]
  simp only [automataOf_eq_map hall, List.map_map, Function.comp_def]

theorem Assembler.assemble_succeeds_perm (s : Assembler) {charts charts' : List Chart}
    (hp : charts.Perm charts') {capacity : Nat}
    (h : ∃ m, (s.assemble charts capacity).outcome = .ok m) :
    ∃ m, (s.assemble charts' capacity).outcome = .ok m := by
  have hpa : (automataOf capacity charts).Perm (automataOf capacity charts') := hp.filterMap _
  obtain ⟨m, hm⟩ := h
  obtain ⟨hall, hn, he, -⟩ := assemble_eq_ok_iff.1 hm
  exact ⟨_, assemble_eq_ok_iff.2 ⟨fun c hc => hall c (hp.mem_iff.2 hc),
    (hpa.map _).nodup_iff.1 hn, (s.succeeds_expand_perm hpa _).1 he, rfl⟩⟩

/-- Assembly does not depend on the order of the statecharts. It succeeds in both orders or in none.
If it does, each statechart becomes the same automaton in both models, the same actions are
declared, and the synchronizations agree one by one: they have the same result and give every
automaton the same action. -/
theorem assemble_order_independent (s : Assembler) (charts charts' : List Chart)
    (hp : charts.Perm charts') (capacity : Nat) :
    ((∃ m, (s.assemble charts capacity).outcome = .ok m) ↔
      ∃ m, (s.assemble charts' capacity).outcome = .ok m) ∧
    ∀ m m', (s.assemble charts capacity).outcome = .ok m →
      (s.assemble charts' capacity).outcome = .ok m' →
      (∃ f : Chart → Automaton, m.automata = charts.map f ∧ m'.automata = charts'.map f) ∧
      m.actions.Perm m'.actions ∧
      List.Forall₂ (fun v v' => v.result = v'.result ∧
          ∀ name, m.system.entry? v name = m'.system.entry? v' name)
        m.system.syncs m'.system.syncs := by
  have hpa : (automataOf capacity charts).Perm (automataOf capacity charts') := hp.filterMap _
  refine ⟨⟨s.assemble_succeeds_perm hp, s.assemble_succeeds_perm hp.symm⟩, ?_⟩
  intro m m' hm hm'
  refine ⟨⟨_, Assembler.automata_of_assemble hm (EventTable.ofAutomata_eq_of_perm hpa),
    Assembler.automata_of_assemble hm' rfl⟩, ?_⟩
  obtain ⟨-, hn, he, rfl⟩ := Assembler.assemble_eq_ok_iff.1 hm
  obtain ⟨-, -, he', rfl⟩ := Assembler.assemble_eq_ok_iff.1 hm'
  rw [Model.state_expand he, Model.state_expand he']
  exact ⟨s.actions_composed_perm hpa, s.syncs_composed_perm hpa hn⟩

/-- The bell and the door trade places, in the model as in the synchronization. -/
theorem assemble_order_independent_door :
    [bell, door].Perm [door, bell] ∧
    ∃ m m', (Assembler.assemble {} [bell, door] 3).outcome = .ok m ∧
      (Assembler.assemble {} [door, bell] 3).outcome = .ok m' ∧
      m.system.syncs = [⟨[some "ring_on_send", some "ring_on_receive"], some "ring", none⟩] ∧
      m'.system.syncs = [⟨[some "ring_on_receive", some "ring_on_send"], some "ring", none⟩] ∧
      (∃ f : Chart → Automaton, m.automata = [f bell, f door] ∧ m'.automata = [f door, f bell]) ∧
      m.actions.Perm m'.actions := by
  have hp : [bell, door].Perm [door, bell] := .swap door bell []
  have hrun : (Assembler.assemble {} [bell, door] 3).outcome.toOption.map (·.system.syncs) =
      some [⟨[some "ring_on_send", some "ring_on_receive"], some "ring", none⟩] := by
    decide +kernel
  have hrun' : (Assembler.assemble {} [door, bell] 3).outcome.toOption.map (·.system.syncs) =
      some [⟨[some "ring_on_receive", some "ring_on_send"], some "ring", none⟩] := by
    decide +kernel
  obtain ⟨m, hm, hsyncs⟩ := Option.map_eq_some_iff.1 hrun
  obtain ⟨m', hm', hsyncs'⟩ := Option.map_eq_some_iff.1 hrun'
  rw [Except.toOption_eq_some_iff] at hm hm'
  obtain ⟨hautomata, hactions, -⟩ :=
    (assemble_order_independent {} [bell, door] [door, bell] hp 3).2 m m' hm hm'
  exact ⟨hp, m, m', hm, hm', hsyncs, hsyncs', hautomata, hactions⟩

end AutomataNet
