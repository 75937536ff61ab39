import AutomataNet.Proofs.WellFormed
/-!
# One synchronization for each sender

A table of events is filled one participant at a time. Synchronizing a model with it fails exactly
if some participant is not an automaton of the model (`Model.synchronize_succeeds_iff`). Otherwise
each sender of each event gets a synchronization of its own, and nobody else does: they stand in the
order of the events and then of the senders, and `EventTable.Carries` says who does what in them.
-/

namespace AutomataNet

/-! ## Event tables -/

namespace EventTable

/-- The table has been filled by recording senders and receivers. -/
inductive Recorded : EventTable → Prop
  | empty : Recorded {}
  | addSender {t : EventTable} (event automaton : String) :
      Recorded t → Recorded (t.addSender event automaton)
  | addReceiver {t : EventTable} (event automaton : String) :
      Recorded t → Recorded (t.addReceiver event automaton)

theorem Recorded.sorted {t : EventTable} (h : t.Recorded) : t.Sorted := by
  induction h with
  | empty => exact sorted_empty
  | addSender event automaton _ ih => exact ih.enter .sender event automaton
  | addReceiver event automaton _ ih => exact ih.enter .receiver event automaton

/-- Someone sends the event. -/
def Sent (t : EventTable) (event : String) : Prop := ∃ sender, t.Takes .sender event sender

/-- Someone receives the event. -/
def Received (t : EventTable) (event : String) : Prop :=
  ∃ receiver, t.Takes .receiver event receiver

variable {t : EventTable}

theorem Sorted.isSent_iff (ht : t.Sorted) {x : EventEntry} (hx : x ∈ t.entries) :
    x.isSent = true ↔ t.Sent x.event := by
  simp only [EventEntry.isSent, Sent, ← ht.mem_members_iff hx, EventEntry.members,
    Bool.not_eq_true', List.isEmpty_eq_false_iff_exists_mem]

theorem Sorted.isReceived_iff (ht : t.Sorted) {x : EventEntry} (hx : x ∈ t.entries) :
    x.isReceived = true ↔ t.Received x.event := by
  simp only [EventEntry.isReceived, Received, ← ht.mem_members_iff hx, EventEntry.members,
    Bool.not_eq_true', List.isEmpty_eq_false_iff_exists_mem]

theorem Sent.exists_entry {event : String} (h : t.Sent event) :
    ∃ x ∈ t.entries, x.event = event := by
  obtain ⟨_, x, hx, he, -⟩ := h
  exact ⟨x, hx, he⟩

/-- Sendings come in the order of the events, and those of an event in the order of the senders. -/
theorem Sorted.pairwise_sendings (ht : t.Sorted) :
    (t.sendings.map fun p => (p.1.event, p.2)).Pairwise (Prod.Lex (· < ·) (· < ·)) := by
  rw [sendings, List.map_flatMap, List.pairwise_flatMap]
  constructor
  · intro x hx
    rw [List.map_map, List.pairwise_map]
    exact (ht.members x hx .sender).pairwise.imp fun hlt => Prod.Lex.right _ hlt
  · apply (List.pairwise_map.1 ht.events.pairwise).imp
    intro x y hlt p hp q hq
    simp only [List.map_map, List.mem_map, Function.comp_apply] at hp hq
    obtain ⟨s, -, rfl⟩ := hp
    obtain ⟨s', -, rfl⟩ := hq
    exact Prod.Lex.left _ _ hlt

theorem mem_sendings_iff {event sender : String} :
    (event, sender) ∈ (t.sendings.map fun p => (p.1.event, p.2)) ↔
      t.Takes .sender event sender := by
  simp only [sendings, List.map_flatMap, List.map_map, List.mem_flatMap, List.mem_map,
    Function.comp_apply, Prod.mk.injEq, Takes, EventEntry.members]
  constructor
  · rintro ⟨x, hx, s, hs, rfl, rfl⟩
    exact ⟨x, hx, rfl, hs⟩
  · rintro ⟨x, hx, rfl, hs⟩
    exact ⟨x, hx, sender, hs, rfl, rfl⟩

end EventTable

/-! ## Labels -/

theorem mem_foldl_insertName {names actions : List String} {label : String} :
    label ∈ names.foldl (fun ns n => insertName n ns) actions ↔
      label ∈ actions ∨ label ∈ names := by
  induction names generalizing actions with
  | nil => simp
  | cons name names ih =>
    rw [List.foldl_cons, ih, mem_insertName, List.mem_cons]
    grind

theorem sortedLT_foldl_insertName (names : List String) {actions : List String}
    (h : actions.SortedLT) : (names.foldl (fun ns n => insertName n ns) actions).SortedLT := by
  induction names generalizing actions with
  | nil => exact h
  | cons name names ih => exact ih (sortedLT_insertName name h)

theorem Model.collectLabels_eq (entries : List EventEntry) (actions : List String) :
    collectLabels entries actions =
      (entries.flatMap (·.labels)).foldl (fun ns n => insertName n ns) actions := by
  rw [List.foldl_flatMap]
  rfl

theorem EventEntry.mem_labels_iff {x : EventEntry} {label : String} :
    label ∈ x.labels ↔ x.isSent = true ∧
      (label = sendLabel x.event ∨ x.isReceived = true ∧ label = receiveLabel x.event) := by
  unfold labels Model.eventActions
  by_cases hs : x.isSent = true <;> by_cases hr : x.isReceived = true <;> simp [hs, hr]

/-- The labels of the events that are sent, and those of their receivers if they have any. -/
theorem EventTable.Sorted.mem_collectLabels_iff {t : EventTable} (ht : t.Sorted) {label : String} :
    label ∈ Model.collectLabels t.entries [] ↔ ∃ event, t.Sent event ∧
      (label = sendLabel event ∨ t.Received event ∧ label = receiveLabel event) := by
  simp only [Model.collectLabels_eq, mem_foldl_insertName, List.not_mem_nil, false_or,
    List.mem_flatMap, EventEntry.mem_labels_iff]
  constructor
  · rintro ⟨x, hx, hsent, hlabel⟩
    rw [ht.isReceived_iff hx] at hlabel
    exact ⟨x.event, (ht.isSent_iff hx).1 hsent, hlabel⟩
  · rintro ⟨event, hsent, hlabel⟩
    obtain ⟨x, hx, rfl⟩ := hsent.exists_entry
    rw [← ht.isReceived_iff hx] at hlabel
    exact ⟨x, hx, (ht.isSent_iff hx).2 hsent, hlabel⟩

/-! ## Unknown participants -/

/-- Whoever is located has an element. -/
theorem Composition.isSome_of_locate {c : Composition} {event : String} {names : List String}
    {ps : Positions} (h : c.locate event names = .ok ps) :
    ∀ name ∈ names, (c.elementIndex? name).isSome = true := by
  induction names generalizing ps with
  | nil => simp
  | cons name names ih =>
    rw [locate] at h
    cases hi : c.elementIndex? name with
    | none => simp [hi] at h
    | some i =>
      rw [hi] at h
      obtain ⟨rest, hrest, -⟩ := Except.bind_eq_ok_iff.1 h
      exact List.forall_mem_cons.2 ⟨by rw [hi]; rfl, ih hrest⟩

namespace Model

theorem Aligned.isSome_elementIndex?_iff {m : Model} (h : m.Aligned) {name : String} :
    (m.system.elementIndex? name).isSome = true ↔ name ∈ m.automata.map (·.name) := by
  rw [h.elementIndex?_eq, List.findIdx?_isSome, List.any_eq_true, List.mem_map]
  simp

/-- An event is added only if all who take part in it are automata of the model. -/
theorem known_of_addEvent {m : Model} (h : m.Aligned) {x : EventEntry}
    (hx : (m.addEvent x).Succeeds) : x.Known m := by
  obtain ⟨labels, hlabels⟩ := hx
  unfold addEvent at hlabels
  cases hs : m.system.locate x.event x.senders with
  | error e => simp [hs, bind, Except.bind, Attempt.fail] at hlabels
  | ok ss =>
    cases hr : m.system.locate x.event x.receivers with
    | error e => simp [hs, hr, bind, Except.bind, Attempt.fail] at hlabels
    | ok rs =>
      intro role name hname
      rw [← h.isSome_elementIndex?_iff]
      cases role with
      | sender => exact Composition.isSome_of_locate hs name hname
      | receiver => exact Composition.isSome_of_locate hr name hname

theorem addEvents_succeeds_iff {entries : List EventEntry} {m : Model} (h : m.Aligned)
    (hd : ∀ x ∈ entries, x.receivers.Nodup) (actions : List String) :
    (m.addEvents entries actions).Succeeds ↔ ∀ x ∈ entries, x.Known m := by
  constructor
  · intro hok
    induction entries generalizing m actions with
    | nil => simp
    | cons x entries ih =>
      obtain ⟨hdx, hd⟩ := List.forall_mem_cons.1 hd
      obtain ⟨labels, hlabels, hrest⟩ := Attempt.succeeds_andThen.1 hok
      have hx : x.Known m := known_of_addEvent h ⟨labels, hlabels⟩
      -- the other events find the same automata in what the first one leaves
      rw [(addEvent_eq h hx hdx).2] at hrest
      have hentries := ih (h.synchronized [x]) hd _ hrest
      exact List.forall_mem_cons.2 ⟨hx, fun y hy => (known_synchronized [x]).1 (hentries y hy)⟩
  · intro hk
    exact ⟨_, (addEvents_eq h hk hd actions).1⟩

/-- Synchronizing succeeds exactly if all who take part in events are automata of the model. -/
theorem synchronize_succeeds_iff {events : EventTable} (ht : events.Sorted) {m : Model}
    (hn : (m.automata.map (·.name)).Nodup) (hs : m.system.syncs = []) :
    (m.synchronize events).Succeeds ↔
      ∀ role event name, events.Takes role event name → name ∈ m.automata.map (·.name) := by
  have hiff : (m.synchronize events).Succeeds ↔ ∀ x ∈ events.entries, x.Known m :=
    addEvents_succeeds_iff (aligned_withElements hn hs)
      (fun x hx => (ht.members x hx .receiver).nodup) []
  rw [hiff]
  constructor
  · rintro hk role event name ⟨x, hx, -, hname⟩
    exact hk x hx role name hname
  · intro hall x hx role name hname
    exact hall role x.event name ⟨x, hx, rfl, hname⟩

/-! ## The synchronizations -/

/-- An entry is found by the name of its automaton. -/
theorem Aligned.entry?_of_mem {m : Model} (h : m.Aligned) {v : Sync}
    {f : String → Option String} (hv : v.participants = (m.automata.map (·.name)).map f)
    {name : String} (hname : name ∈ m.automata.map (·.name)) : m.system.entry? v name = f name := by
  obtain ⟨a, ha, rfl⟩ := List.mem_map.1 hname
  obtain ⟨k, hk, rfl⟩ := List.getElem_of_mem ha
  simp [Composition.entry?, h.elementIndex?_getElem hk, hv, List.getElem?_eq_getElem hk]

theorem Aligned.entry?_of_not_mem {m : Model} (h : m.Aligned) (v : Sync) {name : String}
    (hname : name ∉ m.automata.map (·.name)) : m.system.entry? v name = none := by
  rw [← h.isSome_elementIndex?_iff, Bool.not_eq_true, Option.isSome_eq_false_iff,
    Option.isNone_iff_eq_none] at hname
  rw [Composition.entry?, hname]
  rfl

end Model

/-- In the synchronization, one automaton sends an event, all others who receive the event do so,
and nobody else takes part. -/
structure EventTable.Carries (t : EventTable) (c : Composition) (event sender : String) (v : Sync) :
    Prop where
  result : v.result = some event
  comment : v.comment = none
  length : v.participants.length = c.elements.length
  sends : c.entry? v sender = some (sendLabel event)
  receives : ∀ receiver, t.Takes .receiver event receiver → receiver ≠ sender →
    c.entry? v receiver = some (receiveLabel event)
  rests : ∀ name, name ≠ sender → ¬ t.Takes .receiver event name → c.entry? v name = none

theorem EventTable.Sorted.carries {t : EventTable} (ht : t.Sorted) {m : Model} (h : m.Aligned)
    (hk : ∀ role event name, t.Takes role event name → name ∈ m.automata.map (·.name))
    {x : EventEntry} (hx : x ∈ t.entries) {sender : String} (hs : sender ∈ x.senders) :
    t.Carries m.system x.event sender
      { participants := (m.automata.map (·.name)).map (x.part sender)
        result := some x.event } := by
  have hpart : ∀ name ∈ m.automata.map (·.name), m.system.entry?
      { participants := (m.automata.map (·.name)).map (x.part sender), result := some x.event }
        name = x.part sender name :=
    fun name hname => h.entry?_of_mem rfl hname
  have hreceiver : ∀ name, t.Takes .receiver x.event name ↔ name ∈ x.receivers := fun name =>
    (ht.mem_members_iff hx).symm
  exact
    { result := rfl
      comment := rfl
      length := by simp [h.length_elements]
      sends := by
        rw [hpart sender (hk .sender x.event sender ⟨x, hx, rfl, hs⟩), EventEntry.part, if_pos rfl]
      receives := by
        intro receiver hreceives hne
        rw [hpart receiver (hk _ _ _ hreceives), EventEntry.part, if_neg hne,
          if_pos ((hreceiver receiver).1 hreceives)]
      rests := by
        intro name hne hrests
        by_cases hname : name ∈ m.automata.map (·.name)
        · rw [hpart name hname, EventEntry.part, if_neg hne,
            if_neg fun hmem => hrests ((hreceiver name).2 hmem)]
        · exact h.entry?_of_not_mem _ hname }

namespace Model

/-- The synchronizations of a model that had none are those of the sendings, one by one. -/
theorem carries_synchronized {t : EventTable} (ht : t.Sorted) {m : Model}
    (hn : (m.automata.map (·.name)).Nodup) (hs : m.system.syncs = [])
    (hk : ∀ role event name, t.Takes role event name → name ∈ m.automata.map (·.name)) :
    List.Forall₂ (fun p v => t.Carries (m.withElements.synchronized t.entries).system p.1 p.2 v)
      (t.sendings.map fun p => (p.1.event, p.2))
      (m.withElements.synchronized t.entries).system.syncs := by
  have hsyncs : (m.withElements.synchronized t.entries).system.syncs =
      t.sendings.map fun p =>
        { participants := (m.automata.map (·.name)).map (p.1.part p.2)
          result := some p.1.event } := by
    simp [synchronized, withElements, hs, EventTable.sendings, EventEntry.vectors,
      List.map_flatMap, Function.comp_def]
  rw [hsyncs, List.forall₂_map_left_iff, List.forall₂_map_right_iff, List.forall₂_same]
  intro p hp
  obtain ⟨x, hx, hp⟩ := List.mem_flatMap.1 hp
  obtain ⟨sender, hsender, rfl⟩ := List.mem_map.1 hp
  have haligned := (aligned_withElements hn hs).synchronized t.entries
  have hnames : (m.withElements.synchronized t.entries).automata.map (·.name) =
      m.automata.map (·.name) := names_synchronized t.entries m.withElements
  have hcarries := ht.carries haligned (fun role event name htakes =>
    hnames ▸ hk role event name htakes) hx hsender
  rwa [hnames] at hcarries

/-- An automaton gets self-loops for the events that it receives and someone sends. -/
theorem readied_synchronized {t : EventTable} (ht : t.Sorted) (m : Model) :
    List.Forall₂ (fun a a' => ∃ added, a' = { a with edges := a.edges ++ added } ∧
        ∀ e ∈ added, ∃ event, t.Sent event ∧ t.Takes .receiver event a.name ∧
          e.action = some (receiveLabel event))
      m.automata (m.withElements.synchronized t.entries).automata := by
  change List.Forall₂ _ m.automata
    (m.automata.map fun a => t.entries.foldl (fun a x => x.enable a) a)
  rw [List.forall₂_map_right_iff, List.forall₂_same]
  intro a _
  obtain ⟨added, heq, hloops⟩ := EventEntry.foldl_enable_loops t.entries a
  refine ⟨added, heq, ?_⟩
  intro e he
  obtain ⟨x, hx, hsent, hreceives, haction, -⟩ := hloops e he
  exact ⟨x.event, (ht.isSent_iff hx).1 hsent, ⟨x, hx, rfl, hreceives⟩, haction⟩

/-! ## Main theorem -/

/-- Synchronizing a model with the events of a table fails exactly if someone who takes part in an
event is not in the model. If it succeeds, there is one synchronization for each event and each of
its senders, in the order of the events and then of the senders, and there are no others. The
resulting labels are those of the senders of events, and of their receivers if an event has any.
Only who receives an event that is sent gets new edges, and only with the labels of such events. -/
theorem synchronize_one_per_sender (m : Model) (events : EventTable) (hr : events.Recorded)
    (hn : (m.automata.map (·.name)).Nodup) (hs : m.system.syncs = []) :
    ((∃ e, (m.synchronize events).outcome = .error e) ↔
      ∃ role event name, events.Takes role event name ∧ name ∉ m.automata.map (·.name)) ∧
    ∀ labels, (m.synchronize events).outcome = .ok labels →
      (∃ sendings : List (String × String),
        sendings.Pairwise (Prod.Lex (· < ·) (· < ·)) ∧
        (∀ event sender, (event, sender) ∈ sendings ↔ events.Takes .sender event sender) ∧
        List.Forall₂ (fun p v => events.Carries (m.synchronize events).state.system p.1 p.2 v)
          sendings (m.synchronize events).state.system.syncs) ∧
      (m.synchronize events).state.system.elements =
        m.automata.map (fun a => { automaton := a.name }) ∧
      labels.SortedLT ∧
      (∀ label, label ∈ labels ↔ ∃ event, events.Sent event ∧
        (label = sendLabel event ∨ events.Received event ∧ label = receiveLabel event)) ∧
      List.Forall₂ (fun a a' => ∃ added, a' = { a with edges := a.edges ++ added } ∧
          ∀ e ∈ added, ∃ event, events.Sent event ∧ events.Takes .receiver event a.name ∧
            e.action = some (receiveLabel event))
        m.automata (m.synchronize events).state.automata := by
  have hsorted := hr.sorted
  have hsucceeds := synchronize_succeeds_iff hsorted hn hs
  constructor
  · have hfails : (∃ e, (m.synchronize events).outcome = .error e) ↔
        ¬ (m.synchronize events).Succeeds := by
      unfold Attempt.Succeeds
      cases (m.synchronize events).outcome <;> simp
    rw [hfails, hsucceeds]
    simp only [not_forall, exists_prop]
  · intro labels hlabels
    have hknown := hsucceeds.1 ⟨labels, hlabels⟩
    obtain ⟨hout, hstate⟩ := synchronize_eq hsorted hn hs fun x hx role name hname =>
      hknown role x.event name ⟨x, hx, rfl, hname⟩
    obtain rfl := Except.ok.inj (hout.symm.trans hlabels)
    rw [hstate]
    refine ⟨⟨_, hsorted.pairwise_sendings, fun _ _ => EventTable.mem_sendings_iff,
      carries_synchronized hsorted hn hs hknown⟩, rfl, ?_, fun _ => hsorted.mem_collectLabels_iff,
      readied_synchronized hsorted m⟩
    rw [collectLabels_eq]
    exact sortedLT_foldl_insertName _ (by simp [List.sortedLT_iff_pairwise])

/-- A runner and a relay who start each other, and a referee who listens. -/
def track : Model where
  name := "track"
  automata := [
    { Automaton.single "runner" "ready" with
      edges := [
        { location := "ready"
          action := some "go_on_send"
          destinations := [{ location := "ready" }] }] },
    Automaton.single "referee" "watch",
    { Automaton.single "relay" "ready" with
      edges := [
        { location := "ready"
          action := some "go_on_send"
          destinations := [{ location := "ready" }] },
        { location := "ready"
          action := some "go_on_receive"
          destinations := [{ location := "ready" }] }] }]

/-- Nobody calls a false start, though the runner waits for it. -/
def trackEvents : EventTable :=
  ((((({} : EventTable).addSender "go" "relay").addReceiver "recall" "runner").addReceiver
    "go" "relay").addReceiver "go" "referee").addSender "go" "runner"

theorem trackEvents_recorded : trackEvents.Recorded :=
  .addSender _ _ <| .addReceiver _ _ <| .addReceiver _ _ <| .addReceiver _ _ <|
    .addSender _ _ .empty

/-- The relay comes first by name, and does not receive what it sends itself. -/
theorem synchronize_one_per_sender_track :
    trackEvents.Recorded ∧ (track.automata.map (·.name)).Nodup ∧ track.system.syncs = [] ∧
    (track.synchronize trackEvents).outcome = .ok ["go_on_receive", "go_on_send"] ∧
    (track.synchronize trackEvents).state.system.syncs =
      [{ participants := [none, some "go_on_receive", some "go_on_send"], result := some "go" },
       { participants := [some "go_on_send", some "go_on_receive", some "go_on_receive"],
         result := some "go" }] ∧
    ∃ sendings : List (String × String),
      sendings.Pairwise (Prod.Lex (· < ·) (· < ·)) ∧
      (∀ event sender, (event, sender) ∈ sendings ↔ trackEvents.Takes .sender event sender) ∧
      List.Forall₂
        (fun p v => trackEvents.Carries (track.synchronize trackEvents).state.system p.1 p.2 v)
        sendings (track.synchronize trackEvents).state.system.syncs := by
  have hok : (track.synchronize trackEvents).outcome = .ok ["go_on_receive", "go_on_send"] := by
    rfl
  obtain ⟨hsendings, -⟩ := (synchronize_one_per_sender track trackEvents trackEvents_recorded
    (by decide) rfl).2 _ hok
  exact ⟨trackEvents_recorded, by decide, rfl, hok, by decide, hsendings⟩

end Model

end AutomataNet
