import AutomataNet.Proofs.Order
/-!
# Assembled models are well-formed

The parts of a model refer to each other: synchronizations to automata by position, edges and
synchronizations to actions, edges to locations. `Model.WellFormed` says that all these references
lead somewhere. It holds once the events are synchronized (`Assembler.wellFormed_synced`), and
pruning and expansion keep it. In the same way the failures of assembly are told apart: what fails
is a statechart, or the expansion of a sample, but never a step in between.
-/

namespace AutomataNet

/-! ## Well-formed models -/

/-- Edges lead from and to locations of the automaton. -/
def Automaton.Closed (a : Automaton) : Prop :=
  ∀ e ∈ a.edges, a.hasLocation e.location = true ∧
    ∀ d ∈ e.destinations, a.hasLocation d.location = true

/-- In addition to being aligned, the model has no dangling references. -/
structure Model.WellFormed (m : Model) : Prop extends m.Aligned where
  followed : ∀ v ∈ m.system.syncs, ∃ label, some label ∈ v.participants
  /-- An entry belongs to the event, and the automaton there has an edge for it. -/
  parts : ∀ v ∈ m.system.syncs, ∃ event, v.result = some event ∧
    ∀ (i : Nat) (label : String), v.participants[i]? = some (some label) →
      (label = sendLabel event ∨ label = receiveLabel event) ∧
      ∃ a, m.automata[i]? = some a ∧ a.hasAction label = true
  one_sender : ∀ v ∈ m.system.syncs, ∀ event, v.result = some event → ∀ i j : Nat,
    v.participants[i]? = some (some (sendLabel event)) →
    v.participants[j]? = some (some (sendLabel event)) → i = j
  actions_nodup : (m.actions.map (·.name)).Nodup
  edges_declared : ∀ a ∈ m.automata, ∀ e ∈ a.edges, ∀ label ∈ e.action, m.hasAction label = true
  entries_declared : ∀ v ∈ m.system.syncs, ∀ label, some label ∈ v.participants →
    m.hasAction label = true
  results_declared : ∀ v ∈ m.system.syncs, ∀ event ∈ v.result, m.hasAction event = true
  closed : ∀ a ∈ m.automata, a.Closed

/-! ## Locations -/

namespace Automaton

theorem hasLocation_iff {a : Automaton} {location : String} :
    a.hasLocation location = true ↔ ∃ l ∈ a.locations, l.name = location := by
  simp [hasLocation]

theorem hasAction_iff {a : Automaton} {action : String} :
    a.hasAction action = true ↔ ∃ e ∈ a.edges, e.action = some action := by
  simp [hasAction]

theorem mem_actions {a : Automaton} {action : String} :
    action ∈ a.actions ↔ ∃ e ∈ a.edges, e.action = some action := by
  simp [actions]

end Automaton

theorem Automaton.closed_iff {a : Automaton} :
    a.Closed ↔ ∀ l ∈ a.usedLocations, a.hasLocation l = true := by
  simp only [Closed, usedLocations, List.forall_mem_flatMap, List.forall_mem_cons,
    List.forall_mem_map]

/-- Taking over a statechart changes nothing but the variables, and its edges are checked. -/
theorem Chart.check_eq_ok_iff {capacity : Nat} {c : Chart} {a : Automaton} :
    (c.check capacity).outcome = .ok a ↔
      c.automaton.name = c.name ∧ c.automaton.Closed ∧
      ∃ locals, (c.automaton.locals.sizeArrays capacity
          c.automaton.unsizedArrays).toReport.outcome = .ok locals ∧
        { c.automaton with locals } = a := by
  rw [check, Automaton.closed_iff]
  by_cases hname : c.automaton.name = c.name
  · rw [if_neg (not_not.2 hname)]
    cases hused : c.automaton.usedLocations.find? (!c.automaton.hasLocation ·) with
    | some l =>
      have hl := List.find?_some hused
      have hmem := List.mem_of_find?_eq_some hused
      constructor
      · intro h
        cases h
      · rintro ⟨-, hknown, -⟩
        rw [hknown l hmem] at hl
        cases hl
    | none =>
      have hknown : ∀ l ∈ c.automaton.usedLocations, c.automaton.hasLocation l = true := by
        simpa using List.find?_eq_none.1 hused
      rw [and_iff_right hname, and_iff_right hknown, Report.outcome_map, Except.map_eq_ok_iff]
  · rw [if_pos hname]
    constructor
    · intro h
      cases h
    · rintro ⟨hname', -⟩
      exact absurd hname' hname

theorem Chart.closed_of_check {capacity : Nat} {c : Chart} {a : Automaton}
    (h : (c.check capacity).outcome = .ok a) : a.Closed := by
  obtain ⟨-, hclosed, locals, -, rfl⟩ := check_eq_ok_iff.1 h
  exact hclosed

theorem Chart.check_of_automaton? {capacity : Nat} {c : Chart} {a : Automaton}
    (h : c.automaton? capacity = some a) : (c.check capacity).outcome = .ok a := by
  unfold automaton? at h
  split at h
  · exact Except.toOption_eq_some_iff.1 h
  · contradiction

/-! ## Discarding self-loops -/

/-- The edge takes an action in a location of the automaton, and stays there. -/
def Automaton.Loops (a : Automaton) (action : String) (e : Edge) : Prop :=
  e.action = some action ∧
    ∃ l ∈ a.locations, e.location = l.name ∧ e.destinations = [{ location := l.name }]

theorem Automaton.loops_of_mem_discards {a : Automaton} {action : String} {e : Edge}
    (he : e ∈ a.discards action) : a.Loops action e := by
  obtain ⟨l, hl, he⟩ := List.mem_filterMap.1 he
  unfold discard? at he
  dsimp only at he
  split at he
  · contradiction
  · obtain rfl := Option.some.inj he
    exact ⟨rfl, l, hl, rfl, rfl⟩

/-- Being made ready adds self-loops, each of which discards an event that is sent. -/
theorem EventEntry.foldl_enable_loops (entries : List EventEntry) (a : Automaton) :
    ∃ added, entries.foldl (fun a x => x.enable a) a = { a with edges := a.edges ++ added } ∧
      ∀ e ∈ added, ∃ x ∈ entries, x.isSent = true ∧ a.name ∈ x.receivers ∧
        a.Loops (receiveLabel x.event) e := by
  induction entries generalizing a with
  | nil => exact ⟨[], by simp, by simp⟩
  | cons x entries ih =>
    have hx : ∃ first, x.enable a = { a with edges := a.edges ++ first } ∧
        ∀ e ∈ first, x.isSent = true ∧ a.name ∈ x.receivers ∧
          a.Loops (receiveLabel x.event) e := by
      unfold enable
      split
      · rename_i hsent
        exact ⟨_, rfl, fun e he => ⟨hsent.1, hsent.2, Automaton.loops_of_mem_discards he⟩⟩
      · exact ⟨[], by simp, by simp⟩
    obtain ⟨first, henable, hfirst⟩ := hx
    obtain ⟨rest, hentries, hrest⟩ := ih (x.enable a)
    -- being made ready changes neither the name nor the locations
    rw [henable] at hentries hrest
    refine ⟨first ++ rest, ?_, ?_⟩
    · rw [List.foldl_cons, henable, hentries]
      simp
    · intro e he
      rcases List.mem_append.1 he with he | he
      · exact ⟨x, by simp, hfirst e he⟩
      · obtain ⟨y, hy, hloops⟩ := hrest e he
        exact ⟨y, by simp [hy], hloops⟩

/-- An edge of an automaton made ready was there before, or it discards an event that is sent. -/
theorem EventEntry.mem_edges_foldl_enable {entries : List EventEntry} {a : Automaton} {e : Edge}
    (he : e ∈ (entries.foldl (fun a x => x.enable a) a).edges) :
    e ∈ a.edges ∨ ∃ x ∈ entries, x.isSent = true ∧ a.name ∈ x.receivers ∧
      a.Loops (receiveLabel x.event) e := by
  obtain ⟨added, heq, hloops⟩ := foldl_enable_loops entries a
  rw [heq] at he
  exact (List.mem_append.1 he).imp_right (hloops e)

theorem Automaton.Closed.enabled {a : Automaton} (h : a.Closed) (t : EventTable) :
    (t.enabled a).Closed := by
  intro e he
  have hlocation : ∀ location, (t.enabled a).hasLocation location = a.hasLocation location := by
    intro location
    obtain ⟨added, henabled⟩ := EventEntry.foldl_enable_eq t.entries a
    rw [EventTable.enabled, henabled]
    rfl
  simp only [hlocation]
  rcases EventEntry.mem_edges_foldl_enable he with he | ⟨x, -, -, -, -, l, hl, hloc, hdest⟩
  · exact h e he
  · have hknown : a.hasLocation l.name = true := hasLocation_iff.2 ⟨l, hl, rfl⟩
    rw [hloc, hdest]
    exact ⟨hknown, by simpa using hknown⟩

/-! ## Synchronized events -/

namespace EventEntry

theorem isSent_of_mem {x : EventEntry} {sender : String} (h : sender ∈ x.senders) :
    x.isSent = true := by
  simp [isSent, List.ne_nil_of_mem h]

/-- Who has a part in a synchronization plays a role in the event. -/
theorem role_of_part {x : EventEntry} {sender automaton label : String} (hs : sender ∈ x.senders)
    (h : x.part sender automaton = some label) :
    ∃ role : Role, label = role.label x.event ∧ automaton ∈ x.members role := by
  unfold part at h
  split at h
  · rename_i hname
    obtain rfl := Option.some.inj h
    exact ⟨.sender, rfl, hname ▸ hs⟩
  · split at h
    · rename_i hreceives
      obtain rfl := Option.some.inj h
      exact ⟨.receiver, rfl, hreceives⟩
    · contradiction

/-- Only the sender sends. -/
theorem eq_sender_of_part {x : EventEntry} {sender automaton : String}
    (h : x.part sender automaton = some (sendLabel x.event)) : automaton = sender := by
  unfold part at h
  split at h
  · assumption
  · split at h
    · exact absurd (Option.some.inj h).symm (sendLabel_ne_receiveLabel _ _)
    · contradiction

theorem label_mem_declared {x : EventEntry} (hs : x.isSent = true) (role : Role)
    {automaton : String} (h : automaton ∈ x.members role) : role.label x.event ∈ x.declared := by
  rw [declared, if_pos hs]
  cases role with
  | sender => exact List.mem_cons_self
  | receiver =>
    have hr : x.isReceived = true := by
      simp [isReceived, List.ne_nil_of_mem (show automaton ∈ x.receivers from h)]
    simp [hr, Role.label]

theorem event_mem_declared {x : EventEntry} (hs : x.isSent = true) : x.event ∈ x.declared := by
  simp [declared, hs]

end EventEntry

namespace Assembler

variable (s : Assembler) {automata : List Automaton}

theorem automata_synced :
    (s.synced automata).automata = automata.map (EventTable.ofAutomata automata).enabled := by
  simp only [synced, Model.synchronized, Model.withElements, automata_start_join]
  rfl

theorem mem_syncs_synced {v : Sync} : v ∈ (s.synced automata).system.syncs ↔
    ∃ x ∈ (EventTable.ofAutomata automata).entries, ∃ sender ∈ x.senders,
      v =
        { participants := automata.map fun a => x.part sender a.name
          result := some x.event } := by
  simp only [synced, Model.synchronized, Model.withElements, automata_start_join, syncs_start_join,
    List.nil_append, List.mem_flatMap, EventEntry.vectors, List.mem_map, List.map_map]
  constructor
  · rintro ⟨x, hx, sender, hs, rfl⟩
    exact ⟨x, hx, sender, hs, rfl⟩
  · rintro ⟨x, hx, sender, hs, rfl⟩
    exact ⟨x, hx, sender, hs, rfl⟩

theorem hasAction_synced {name : String} : (s.synced automata).hasAction name = true ↔
    (∃ a ∈ automata, name ∈ a.actions) ∨
      ∃ x ∈ (EventTable.ofAutomata automata).entries, name ∈ x.declared := by
  have hactions : (s.synced automata).actions = _ := s.actions_composed automata
  simp only [Model.hasAction, hactions, List.any_eq_true, mem_foldl_declareAction, List.mem_append,
    List.mem_flatMap, decide_eq_true_eq]
  constructor
  · rintro ⟨action, ⟨-, hmem⟩, rfl⟩
    exact hmem
  · intro hmem
    exact ⟨{ name := name }, ⟨rfl, hmem⟩, rfl⟩

/-- Whoever plays a role in an event has an edge for it. -/
theorem hasAction_of_role (hn : (automata.map (·.name)).Nodup) {x : EventEntry}
    (hx : x ∈ (EventTable.ofAutomata automata).entries) {role : Role} {a : Automaton}
    (ha : a ∈ automata) (hrole : a.name ∈ x.members role) :
    a.hasAction (role.label x.event) = true := by
  rw [(EventTable.sorted_ofAutomata automata).mem_members_iff hx, EventTable.takes_ofAutomata]
    at hrole
  obtain ⟨b, hb, hname, hlabel⟩ := hrole
  rw [List.inj_on_of_nodup_map hn ha hb hname.symm]
  exact Automaton.hasAction_iff.2 (Automaton.mem_actions.1 hlabel)

theorem wellFormed_synced (hn : (automata.map (·.name)).Nodup) (hc : ∀ a ∈ automata, a.Closed) :
    (s.synced automata).WellFormed where
  toAligned := s.aligned_synced hn
  followed := by
    intro v hv
    obtain ⟨x, hx, sender, hs, rfl⟩ := (s.mem_syncs_synced).1 hv
    -- the sender itself takes part
    obtain ⟨a, ha, hname⟩ := List.mem_map.1
      (EventTable.known_ofAutomata hx (s.automata_start_join automata) .sender sender hs)
    rw [automata_start_join] at ha
    exact ⟨sendLabel x.event, List.mem_map.2 ⟨a, ha, by simp [EventEntry.part, hname]⟩⟩
  parts := by
    intro v hv
    obtain ⟨x, hx, sender, hs, rfl⟩ := (s.mem_syncs_synced).1 hv
    refine ⟨x.event, rfl, fun i label hi => ?_⟩
    rw [List.getElem?_map] at hi
    obtain ⟨a, ha, hpart⟩ := Option.map_eq_some_iff.1 hi
    obtain ⟨role, rfl, hrole⟩ := x.role_of_part hs hpart
    have hb : (s.synced automata).automata[i]? =
        some ((EventTable.ofAutomata automata).enabled a) := by
      rw [automata_synced, List.getElem?_map, ha]
      rfl
    refine ⟨by cases role <;> simp [Role.label], _, hb, ?_⟩
    obtain ⟨e, he, hlabel⟩ := Automaton.hasAction_iff.1
      (hasAction_of_role hn hx (List.mem_of_getElem? ha) hrole)
    obtain ⟨added, henabled⟩ :=
      EventEntry.foldl_enable_eq (EventTable.ofAutomata automata).entries a
    rw [EventTable.enabled, henabled]
    exact Automaton.hasAction_iff.2 ⟨e, List.mem_append_left _ he, hlabel⟩
  one_sender := by
    intro v hv event hresult i j hi hj
    obtain ⟨x, hx, sender, hs, rfl⟩ := (s.mem_syncs_synced).1 hv
    obtain rfl := Option.some.inj hresult
    simp only [List.getElem?_map, Option.map_eq_some_iff] at hi hj
    obtain ⟨a, ha, hsenda⟩ := hi
    obtain ⟨b, hb, hsendb⟩ := hj
    have hab : (automata.map (·.name))[i]? = (automata.map (·.name))[j]? := by
      rw [List.getElem?_map, List.getElem?_map, ha, hb, Option.map_some, Option.map_some,
        x.eq_sender_of_part hsenda, x.eq_sender_of_part hsendb]
    exact (List.getElem?_inj (by simpa using (List.getElem?_eq_some_iff.1 ha).1) hn).1 hab
  actions_nodup := by
    have hactions : (s.synced automata).actions = _ := s.actions_composed automata
    rw [hactions]
    exact nodup_foldl_declareAction _
  edges_declared := by
    intro a ha e he label hlabel
    rw [automata_synced] at ha
    obtain ⟨b, hb, rfl⟩ := List.mem_map.1 ha
    rw [hasAction_synced]
    rcases EventEntry.mem_edges_foldl_enable he with he | ⟨x, hx, hsent, hreceives, hloop, -⟩
    · exact .inl ⟨b, hb, Automaton.mem_actions.2 ⟨e, he, hlabel⟩⟩
    · obtain rfl := Option.some.inj (hloop.symm.trans hlabel)
      exact .inr ⟨x, hx, x.label_mem_declared hsent .receiver hreceives⟩
  entries_declared := by
    intro v hv label hlabel
    obtain ⟨x, hx, sender, hs, rfl⟩ := (s.mem_syncs_synced).1 hv
    obtain ⟨a, -, hpart⟩ := List.mem_map.1 hlabel
    obtain ⟨role, rfl, hrole⟩ := x.role_of_part hs hpart
    exact s.hasAction_synced.2 (.inr ⟨x, hx, x.label_mem_declared (x.isSent_of_mem hs) role hrole⟩)
  results_declared := by
    intro v hv event hresult
    obtain ⟨x, hx, sender, hs, rfl⟩ := (s.mem_syncs_synced).1 hv
    obtain rfl := Option.some.inj hresult
    exact s.hasAction_synced.2 (.inr ⟨x, hx, x.event_mem_declared (x.isSent_of_mem hs)⟩)
  closed := by
    intro a ha
    rw [automata_synced] at ha
    obtain ⟨b, hb, rfl⟩ := List.mem_map.1 ha
    exact (hc b hb).enabled _

end Assembler

/-! ## Pruning -/

namespace Automaton

theorem edges_pruned_subset (actions : List String) (a : Automaton) :
    (a.pruned actions).edges ⊆ a.edges :=
  fun _ he => (List.mem_filter.1 he).1

/-- Edges go only where the automaton is inert on them. -/
theorem hasAction_pruned {actions : List String} {a : Automaton} {label : String}
    (hkept : a.isDropped actions label = false) (h : a.hasAction label = true) :
    (a.pruned actions).hasAction label = true := by
  obtain ⟨e, he, hlabel⟩ := hasAction_iff.1 h
  exact hasAction_iff.2 ⟨e, List.mem_filter.2 ⟨he, by simp [hlabel, hkept]⟩, hlabel⟩

theorem Closed.pruned {a : Automaton} (h : a.Closed) (actions : List String) :
    (a.pruned actions).Closed :=
  fun e he => h e (edges_pruned_subset actions a he)

end Automaton

theorem Model.WellFormed.pruned {m : Model} (h : m.WellFormed) (actions : List String) :
    (m.pruned actions).WellFormed := by
  -- a synchronization that is left comes from one of the model, and still has an entry
  have hsync : ∀ v ∈ (m.pruned actions).system.syncs, v.isEmpty = false ∧
      ∃ w ∈ m.system.syncs, w.pruned actions m.automata = v := by
    intro v hv
    obtain ⟨hv, hfull⟩ := List.mem_filter.1 hv
    exact ⟨by simpa using hfull, List.mem_map.1 hv⟩
  exact
    { toAligned := h.toAligned.pruned actions
      followed := by
        intro v hv
        obtain ⟨hfull, -⟩ := hsync v hv
        simp only [Sync.isEmpty, List.all_eq_false, Option.isNone_iff_eq_none] at hfull
        obtain ⟨entry, hentry, hsome⟩ := hfull
        obtain ⟨label, rfl⟩ := Option.ne_none_iff_exists'.1 hsome
        exact ⟨label, hentry⟩
      parts := by
        intro v hv
        obtain ⟨-, w, hw, rfl⟩ := hsync v hv
        obtain ⟨event, hresult, hparts⟩ := h.parts w hw
        refine ⟨event, hresult, fun i label hi => ?_⟩
        -- the entry was kept because its automaton is not inert, and so its edges were kept
        obtain ⟨hi, a, ha, hkept⟩ := Sync.getElem?_pruned hi
        obtain ⟨hlabel, b, hb, haction⟩ := hparts i label hi
        obtain rfl := Option.some.inj (ha.symm.trans hb)
        exact ⟨hlabel, a.pruned actions, by simp [Model.pruned, ha],
          Automaton.hasAction_pruned hkept haction⟩
      one_sender := by
        intro v hv event hresult i j hi hj
        obtain ⟨-, w, hw, rfl⟩ := hsync v hv
        exact h.one_sender w hw event hresult i j (Sync.getElem?_pruned hi).1
          (Sync.getElem?_pruned hj).1
      actions_nodup := h.actions_nodup
      edges_declared := by
        intro a ha e he label hlabel
        obtain ⟨b, hb, rfl⟩ := List.mem_map.1 ha
        exact h.edges_declared b hb e (b.edges_pruned_subset actions he) label hlabel
      entries_declared := by
        intro v hv label hlabel
        obtain ⟨-, w, hw, rfl⟩ := hsync v hv
        obtain ⟨i, hi⟩ := List.mem_iff_getElem?.1 hlabel
        exact h.entries_declared w hw label (List.mem_of_getElem? (Sync.getElem?_pruned hi).1)
      results_declared := by
        intro v hv event hresult
        obtain ⟨-, w, hw, rfl⟩ := hsync v hv
        exact h.results_declared w hw event hresult
      closed := by
        intro a ha
        obtain ⟨b, hb, rfl⟩ := List.mem_map.1 ha
        exact (h.closed b hb).pruned actions }

/-! ## Expansion -/

namespace Automaton

variable {a : Automaton} {cap : Nat} (he : (a.expand cap).Succeeds)

include he

/-- The edges of an expanded automaton come from its own, with the same label. -/
theorem mem_edges_expand {e' : Edge} : e' ∈ (a.expand cap).state.edges ↔
    ∃ e ∈ a.edges, (e.expand cap).state = e' := by
  rw [state_expand he]
  exact List.mem_map

theorem hasAction_expand {label : String} (h : a.hasAction label = true) :
    (a.expand cap).state.hasAction label = true := by
  obtain ⟨e, hmem, hlabel⟩ := hasAction_iff.1 h
  obtain ⟨destinations, hstate⟩ := e.state_expand cap
  exact hasAction_iff.2 ⟨_, (mem_edges_expand he).2 ⟨e, hmem, rfl⟩, by rw [hstate, ← hlabel]⟩

theorem Closed.expand (h : a.Closed) : (a.expand cap).state.Closed := by
  intro e' he'
  have hlocation : ∀ location,
      (a.expand cap).state.hasLocation location = a.hasLocation location := by
    intro location
    rw [state_expand he]
    rfl
  simp only [hlocation]
  obtain ⟨e, hmem, rfl⟩ := (mem_edges_expand he).1 he'
  obtain ⟨hsource, htargets⟩ := h e hmem
  refine ⟨?_, fun d' hd' => ?_⟩
  · obtain ⟨destinations, hstate⟩ := e.state_expand cap
    rwa [hstate]
  · -- it leads where the destination leads that it was expanded from
    obtain ⟨d, hd, ds, hexpand, hd'⟩ :=
      Edge.mem_destinations_expand (succeeds_expand.1 he e hmem) hd'
    rw [Destination.location_of_expand hexpand hd']
    exact htargets d hd

end Automaton

theorem Model.WellFormed.expand {m : Model} (h : m.WellFormed) {cap : Nat}
    (he : (m.expand cap).Succeeds) : (m.expand cap).state.WellFormed := by
  have hexpand := succeeds_expand.1 he
  rw [state_expand he]
  have hnames : (m.automata.map fun a => (a.expand cap).state).map (·.name) =
      m.automata.map (·.name) := by
    rw [List.map_map]
    apply List.map_congr_left
    intro a ha
    simp [Automaton.state_expand (hexpand a ha)]
  exact
    { h with
      names := hnames ▸ h.names
      elements := hnames ▸ h.elements
      parts := by
        intro v hv
        obtain ⟨event, hresult, hparts⟩ := h.parts v hv
        refine ⟨event, hresult, fun i label hi => ?_⟩
        obtain ⟨hlabel, a, ha, haction⟩ := hparts i label hi
        exact ⟨hlabel, (a.expand cap).state, by simp [ha],
          Automaton.hasAction_expand (hexpand a (List.mem_of_getElem? ha)) haction⟩
      edges_declared := by
        intro a' ha' e' he' label hlabel
        obtain ⟨a, ha, rfl⟩ := List.mem_map.1 ha'
        obtain ⟨e, hmem, rfl⟩ := (Automaton.mem_edges_expand (hexpand a ha)).1 he'
        obtain ⟨destinations, hstate⟩ := e.state_expand cap
        rw [hstate] at hlabel
        exact h.edges_declared a ha e hmem label hlabel
      closed := by
        intro a' ha'
        obtain ⟨a, ha, rfl⟩ := List.mem_map.1 ha'
        exact (h.closed a ha).expand (hexpand a ha) }

/-! ## Failures -/

/-- The failure lies with the statecharts themselves. -/
inductive AssemblyError.Concerns (charts : List Chart) : AssemblyError → Prop
  | notPlain {c : Chart} (hc : c ∈ charts) : Concerns charts (.configuration (.notPlain c.name))
  | rejected {c : Chart} (hc : c ∈ charts) (cause : ChartError) :
      Concerns charts (.chart c.name c.locator cause)
  | duplicate (name : String) : Concerns charts (.configuration (.duplicateAutomaton name))

theorem AssemblyError.Concerns.mono {charts charts' : List Chart} {err : AssemblyError}
    (h : err.Concerns charts) (hs : charts ⊆ charts') : err.Concerns charts' := by
  cases h with
  | notPlain hc => exact .notPlain (hs hc)
  | rejected hc cause => exact .rejected (hs hc) cause
  | duplicate name => exact .duplicate name

namespace Assembler

theorem concerns_of_acceptChart {capacity : Nat} {c : Chart} {events : EventTable}
    {err : AssemblyError} (h : (acceptChart capacity c events).outcome = .error err) :
    err.Concerns [c] := by
  unfold acceptChart at h
  split at h
  · obtain rfl := Except.error.inj h
    exact .notPlain (by simp)
  · dsimp only at h
    split at h
    · obtain rfl := Except.error.inj h
      exact .rejected (by simp) _
    · contradiction

theorem concerns_of_addAutomaton {a : Automaton} {m : Model} {err : AssemblyError}
    (h : (addAutomaton a m).outcome = .error err) (charts : List Chart) : err.Concerns charts := by
  unfold addAutomaton Model.addAutomaton at h
  split at h
  · obtain rfl := Except.error.inj h
    exact .duplicate a.name
  · contradiction

theorem concerns_of_addCharts {capacity : Nat} {charts : List Chart} {m : Model}
    {events : EventTable} {err : AssemblyError}
    (h : (addCharts capacity charts m events).outcome = .error err) : err.Concerns charts := by
  induction charts generalizing m events with
  | nil => cases h
  | cons c charts ih =>
    simp only [addCharts, Report.outcome_bind, Except.bind_eq_error_iff, Prod.exists] at h
    rcases h with h | ⟨a, events, -, h | ⟨m, -, h⟩⟩
    · exact (concerns_of_acceptChart h).mono (by simp)
    · exact concerns_of_addAutomaton h _
    · exact (ih h).mono (by simp)

/-- Once all statecharts are taken over, only a sample can make assembly fail. -/
theorem assemble_eq_error {s : Assembler} {charts : List Chart} {capacity : Nat}
    {err : AssemblyError} (h : (s.assemble charts capacity).outcome = .error err) :
    err.Concerns charts ∨ ∃ cause, err = .expansion cause := by
  simp only [assemble, Report.outcome_bind, Report.outcome_note, Except.bind_eq_error_iff,
    Prod.exists, Report.outcome_mapError, Except.mapError_eq_error_iff, Except.mapError_eq_ok_iff,
    addCharts_start_eq_ok_iff] at h
  rcases h with h | ⟨-, -, h | ⟨m, events, ⟨-, hn, rfl, rfl⟩, h⟩⟩
  · contradiction
  · exact .inl (concerns_of_addCharts h)
  · -- all senders and receivers are automata of the model, so synchronizing does not fail
    obtain ⟨hsync, hstate⟩ := s.synchronize_join hn
    rw [hsync, hstate] at h
    rcases h with ⟨_, hfail, -⟩ | ⟨actions, -, h⟩
    · contradiction
    · -- the model is aligned, so pruning does not fail either
      have hprune := ((s.aligned_synced hn).prune_eq actions).1
      rcases h with ⟨_, hfail, -⟩ | ⟨_, -, _, -, rfl⟩
      · simp [Attempt.toReport, hprune] at hfail
      · exact .inr ⟨_, rfl⟩

theorem wellFormed_of_assemble {s : Assembler} {charts : List Chart} {capacity : Nat} {m : Model}
    (h : (s.assemble charts capacity).outcome = .ok m) : m.WellFormed := by
  obtain ⟨-, hn, hexpand, rfl⟩ := assemble_eq_ok_iff.1 h
  have hclosed : ∀ a ∈ automataOf capacity charts, a.Closed := by
    intro a ha
    obtain ⟨c, -, hc⟩ := List.mem_filterMap.1 ha
    exact Chart.closed_of_check (Chart.check_of_automaton? hc)
  exact ((s.wellFormed_synced hn hclosed).pruned _).expand hexpand

end Assembler

/-- Assembly never fails for want of an automaton or of an entry in a synchronization, whatever the
statecharts are. A model that it puts together is well-formed. -/
theorem assemble_wellFormed (s : Assembler) (charts : List Chart) (capacity : Nat) :
    (∀ event name, (s.assemble charts capacity).outcome ≠
      .error (.configuration (.unknownAutomaton event name))) ∧
    (∀ cause, (s.assemble charts capacity).outcome ≠ .error (.pruning cause)) ∧
    ∀ m, (s.assemble charts capacity).outcome = .ok m → m.WellFormed := by
  refine ⟨?_, ?_, fun m => Assembler.wellFormed_of_assemble⟩
  · intro event name h
    rcases Assembler.assemble_eq_error h with hc | ⟨_, hc⟩ <;> cases hc
  · intro cause h
    rcases Assembler.assemble_eq_error h with hc | ⟨_, hc⟩ <;> cases hc

/-- Hears the bell, and stands still. -/
def wall : Chart where
  name := "wall"
  automaton :=
    { Automaton.single "wall" "here" with
      edges := [
        { location := "here"
          action := some "ring_on_receive"
          destinations := [{ location := "here" }] }] }
  locator := "wall.json"

/-- Rolls when the bell rings. -/
def dice : Chart where
  name := "dice"
  automaton :=
    { Automaton.single "dice" "table" with
      edges := [
        { location := "table"
          action := some "ring_on_receive"
          destinations := [
            { location := "table"
              assignments := [
                ⟨.var "eyes", .distribution "DiscreteUniform" [.ofInt 1, .ofInt 6] none,
                  none⟩] }] }] }
  locator := "dice.json"

/-- The wall is pruned, and the dice get a destination for each number of eyes. -/
theorem assemble_wellFormed_dice :
    ∃ m, (Assembler.assemble {} [bell, wall, dice] 3).outcome = .ok m ∧
      m.system.syncs = [⟨[some "ring_on_send", none, some "ring_on_receive"], some "ring", none⟩] ∧
      m.automata.map (fun a => a.edges.map (·.destinations.length)) = [[1], [], [6]] ∧
      m.WellFormed := by
  have hrun : ((Assembler.assemble {} [bell, wall, dice] 3).outcome.toOption.map fun m =>
      (m.system.syncs, m.automata.map fun a => a.edges.map (·.destinations.length))) =
      some ([⟨[some "ring_on_send", none, some "ring_on_receive"], some "ring", none⟩],
        [[1], [], [6]]) := by
    decide +kernel
  obtain ⟨m, hm, hparts⟩ := Option.map_eq_some_iff.1 hrun
  obtain ⟨hsyncs, hedges⟩ := Prod.mk.inj hparts
  have hok := Except.toOption_eq_some_iff.1 hm
  exact ⟨m, hok, hsyncs, hedges, (assemble_wellFormed {} [bell, wall, dice] 3).2.2 m hok⟩

end AutomataNet
