import AutomataNet.Model.Synchronization
import AutomataNet.Proofs.Composition
import AutomataNet.Proofs.Events
import AutomataNet.Proofs.Outcome

/-!
# What synchronization adds

Events are added one after the other, and each looks up the positions of its automata. In an aligned
model this comes to a closed form: `EventEntry.part` says what an automaton of a given name does in
the synchronization of a given sender, `EventEntry.enable` what happens to a single automaton, and
`Model.synchronized` puts them together (`Model.synchronize_eq`).
-/

namespace AutomataNet

/-! ## Declaring actions -/

def declareAction (actions : List Action) (name : String) : List Action :=
  if actions.any (·.name = name) then actions else actions ++ [{ name := name }]

theorem Model.addAction_eq (name : String) (m : Model) :
    m.addAction name = { m with actions := declareAction m.actions name } := by
  unfold addAction declareAction hasAction
  split <;> rfl

theorem Model.foldl_addAction (names : List String) (m : Model) :
    names.foldl (fun m name => m.addAction name) m =
      { m with actions := names.foldl declareAction m.actions } := by
  induction names generalizing m with
  | nil => rfl
  | cons name names ih => rw [List.foldl_cons, ih, addAction_eq, List.foldl_cons]

/-! ## What one event adds -/

namespace EventEntry

/-- Someone sends the event. -/
def isSent (x : EventEntry) : Bool := !x.senders.isEmpty

/-- Someone receives the event. -/
def isReceived (x : EventEntry) : Bool := !x.receivers.isEmpty

/-- What an automaton does when the event comes from the given sender. -/
def part (x : EventEntry) (sender automaton : String) : Option String :=
  if automaton = sender then some (sendLabel x.event)
  else if automaton ∈ x.receivers then some (receiveLabel x.event)
  else none

/-- One synchronization for each sender, among automata of the given names. -/
def vectors (names : List String) (x : EventEntry) : List Sync :=
  x.senders.map fun s => { participants := names.map (x.part s), result := some x.event }

/-- Makes a receiver ready for the event, if someone sends it. -/
def enable (x : EventEntry) (a : Automaton) : Automaton :=
  if x.isSent ∧ a.name ∈ x.receivers then a.inputEnable (receiveLabel x.event) else a

/-- The labels of the event that take part in synchronizations. -/
def labels (x : EventEntry) : List String :=
  if x.isSent then Model.eventActions x.event x.isReceived else []

/-- The actions declared for the event. -/
def declared (x : EventEntry) : List String :=
  if x.isSent then
    sendLabel x.event :: x.event :: if x.isReceived then [receiveLabel x.event] else []
  else []

/-- All who take part are in the model. -/
def Known (m : Model) (x : EventEntry) : Prop :=
  ∀ role, ∀ name ∈ x.members role, name ∈ m.automata.map (·.name)

/-- Enabling only adds edges, at the end. -/
theorem enable_eq (x : EventEntry) (a : Automaton) :
    ∃ added, x.enable a = { a with edges := a.edges ++ added } := by
  unfold enable
  split
  · exact ⟨_, rfl⟩
  · exact ⟨[], by simp⟩

theorem foldl_enable_eq (entries : List EventEntry) (a : Automaton) :
    ∃ added, entries.foldl (fun a x => x.enable a) a = { a with edges := a.edges ++ added } := by
  induction entries generalizing a with
  | nil => exact ⟨[], by simp⟩
  | cons x entries ih =>
    obtain ⟨first, hx⟩ := x.enable_eq a
    obtain ⟨rest, hentries⟩ := ih (x.enable a)
    refine ⟨first ++ rest, ?_⟩
    rw [List.foldl_cons, hentries, hx]
    simp

@[simp] theorem name_foldl_enable (entries : List EventEntry) (a : Automaton) :
    (entries.foldl (fun a x => x.enable a) a).name = a.name := by
  obtain ⟨added, h⟩ := foldl_enable_eq entries a
  rw [h]

@[simp] theorem name_enable (x : EventEntry) (a : Automaton) : (x.enable a).name = a.name :=
  name_foldl_enable [x] a

end EventEntry

namespace Model

/-- The model with the synchronizations of some events. -/
def synchronized (entries : List EventEntry) (m : Model) : Model :=
  { m with
    actions := (entries.flatMap (·.declared)).foldl declareAction m.actions
    automata := m.automata.map fun a => entries.foldl (fun a x => x.enable a) a
    system := { m.system with
      syncs := m.system.syncs ++ entries.flatMap (·.vectors (m.automata.map (·.name))) } }

theorem names_synchronized (entries : List EventEntry) (m : Model) :
    (m.synchronized entries).automata.map (·.name) = m.automata.map (·.name) := by
  simp [synchronized, Function.comp_def]

theorem synchronized_cons (x : EventEntry) (entries : List EventEntry) (m : Model) :
    m.synchronized (x :: entries) = (m.synchronized [x]).synchronized entries := by
  have hnames : (m.automata.map x.enable).map (·.name) = m.automata.map (·.name) := by
    simp [Function.comp_def]
  simp [synchronized, Function.comp_def, hnames]

theorem Aligned.synchronized {m : Model} (h : m.Aligned) (entries : List EventEntry) :
    (m.synchronized entries).Aligned where
  names := by
    rw [names_synchronized]
    exact h.names
  elements := by
    rw [names_synchronized]
    exact h.elements
  entries := by
    intro v hv
    rcases List.mem_append.1 hv with hv | hv
    · exact h.entries v hv
    · obtain ⟨x, -, hv⟩ := List.mem_flatMap.1 hv
      obtain ⟨s, -, rfl⟩ := List.mem_map.1 hv
      simp [Model.synchronized, h.length_elements]

/-! ## Positions -/

theorem locate_known {m : Model} (h : m.Aligned) (event : String) {names : List String}
    (hk : ∀ name ∈ names, name ∈ m.automata.map (·.name)) :
    ∃ ps, m.system.locate event names = .ok ps ∧ ps.map (·.1) = names ∧
      ∀ p ∈ ps, m.system.elementIndex? p.1 = some p.2 := by
  induction names with
  | nil => exact ⟨[], rfl, rfl, by simp⟩
  | cons name names ih =>
    obtain ⟨hname, hnames⟩ := List.forall_mem_cons.1 hk
    obtain ⟨a, ha, rfl⟩ := List.mem_map.1 hname
    obtain ⟨i, hi⟩ := h.exists_elementIndex? ha
    obtain ⟨ps, hps, rfl, hidx⟩ := ih hnames
    refine ⟨(a.name, i) :: ps, ?_, rfl, List.forall_mem_cons.2 ⟨hi, hidx⟩⟩
    simp [Composition.locate, hi, hps, bind, Except.bind]

theorem length_participants (size : Nat) (event : String) (sender : String × Nat) (ps : Positions) :
    (participants size event sender ps).length = size := by
  unfold participants
  have hlen : ((List.replicate size none).set sender.2 (some (sendLabel event))).length = size := by
    simp
  generalize (List.replicate size none).set sender.2 (some (sendLabel event)) = v at hlen ⊢
  induction ps generalizing v with
  | nil => exact hlen
  | cons p ps ih =>
    obtain ⟨name, i⟩ := p
    rw [List.foldl_cons]
    apply ih
    dsimp only
    split
    · exact hlen
    · rwa [List.length_set]

/-- An entry is that of a receiver there, or that of the sender. -/
theorem getElem?_participants {size : Nat} (event : String) (sender : String × Nat) (ps : Positions)
    {k : Nat} (hk : k < size) :
    (participants size event sender ps)[k]? = some
      (if ps.any fun p => p.1 ≠ sender.1 && p.2 = k then some (receiveLabel event)
      else if sender.2 = k then some (sendLabel event) else none) := by
  unfold participants
  have hv : ((List.replicate size none).set sender.2 (some (sendLabel event)))[k]? =
      some (if sender.2 = k then some (sendLabel event) else none) := by
    rw [List.getElem?_set]
    by_cases hs : sender.2 = k <;> simp [hs, hk]
  -- what stands at `k` before the receivers are entered does not matter from here on
  generalize (List.replicate size none).set sender.2 (some (sendLabel event)) = v at hv ⊢
  generalize (if sender.2 = k then some (sendLabel event) else none) = entry at hv ⊢
  induction ps generalizing v entry with
  | nil => simpa using hv
  | cons p ps ih =>
    obtain ⟨name, i⟩ := p
    rw [List.foldl_cons]
    dsimp only
    by_cases hp : name = sender.1
    · rw [if_pos hp, ih v entry hv, List.any_cons]
      simp only [hp, ne_eq, not_true_eq_false, decide_false, Bool.false_and, Bool.false_or]
    · have hstep : (v.set i (some (receiveLabel event)))[k]? =
          some (if i = k then some (receiveLabel event) else entry) := by
        have hkv := (List.getElem?_eq_some_iff.1 hv).1
        rw [List.getElem?_set]
        by_cases hik : i = k
        · simp [hik, hkv]
        · rw [if_neg hik, if_neg hik, hv]
      rw [if_neg hp, ih _ _ hstep]
      rw [List.any_cons]
      by_cases hik : i = k
      · simp [hp, hik]
      · simp only [hik, decide_false, Bool.and_false, Bool.false_or, if_false]

theorem participants_eq {m : Model} (h : m.Aligned) (x : EventEntry) {s : String} {i : Nat}
    (hs : m.system.elementIndex? s = some i) {ps : Positions} (hps : ps.map (·.1) = x.receivers)
    (hidx : ∀ p ∈ ps, m.system.elementIndex? p.1 = some p.2) :
    participants m.system.elements.length x.event (s, i) ps =
      (m.automata.map (·.name)).map (x.part s) := by
  rw [h.length_elements, List.map_map]
  apply List.ext_getElem?
  intro k
  -- within the model, positions are turned into names; beyond it both lists end
  by_cases hk : k < m.automata.length
  · have hsk : i = k ↔ m.automata[k].name = s := by
      rw [← h.elementIndex?_eq_some_iff hk, hs, Option.some.injEq]
    have hrk : (ps.any fun p => p.1 ≠ s && p.2 = k) = true ↔
        m.automata[k].name ≠ s ∧ m.automata[k].name ∈ x.receivers := by
      simp only [← hps, List.mem_map, List.any_eq_true, Bool.and_eq_true, decide_eq_true_eq]
      constructor
      · rintro ⟨p, hp, hne, hpk⟩
        have hname := (h.elementIndex?_eq_some_iff hk).1 (hpk ▸ hidx p hp)
        rw [hname]
        exact ⟨hne, p, hp, rfl⟩
      · rintro ⟨hne, p, hp, hpn⟩
        have hpk := hidx p hp
        rw [(h.elementIndex?_eq_some_iff hk).2 hpn.symm] at hpk
        exact ⟨p, hp, hpn ▸ hne, (Option.some.inj hpk).symm⟩
    rw [getElem?_participants x.event (s, i) ps hk, List.getElem?_map, List.getElem?_eq_getElem hk]
    simp only [hrk, hsk, EventEntry.part, Option.map_some, Function.comp_apply]
    grind
  · rw [List.getElem?_eq_none (by rw [length_participants]; omega),
      List.getElem?_eq_none (by simpa using hk)]

/-! ## Adding events -/

theorem automata_enableReceivers (action : String) {names : List String} (hd : names.Nodup)
    {m : Model} (hn : (m.automata.map (·.name)).Nodup) :
    (enableReceivers action names m).1 =
      { m with
        automata := m.automata.map fun a =>
          if a.name ∈ names then a.inputEnable action else a } := by
  induction names generalizing m with
  | nil => simp [enableReceivers]
  | cons name names ih =>
    obtain ⟨hname, hd⟩ := List.nodup_cons.1 hd
    have hu := updateAutomaton_eq_map name (·.inputEnable action) hn
    have hn' : ((updateAutomaton name (·.inputEnable action) m.automata).map (·.name)).Nodup := by
      rw [hu, List.map_map]
      convert hn using 2
      funext a
      by_cases ha : a.name = name <;> simp [ha, Automaton.inputEnable]
    simp only [enableReceivers]
    rw [ih hd hn']
    simp only [hu, List.map_map]
    congr 1
    apply List.map_congr_left
    intro a _
    by_cases ha : a.name = name
    · subst ha
      simp [Automaton.inputEnable, hname]
    · simp [ha]

theorem addEventActions_eq (event : String) (received : Bool) (m : Model) :
    m.addEventActions event received =
      { m with
        actions := List.foldl declareAction m.actions
          (sendLabel event :: event :: if received then [receiveLabel event] else []) } := by
  cases received <;> simp [addEventActions, addAction_eq]

/-- Adding an event whose participants are in the model succeeds. -/
theorem addEvent_eq {m : Model} (h : m.Aligned) {x : EventEntry} (hk : x.Known m)
    (hd : x.receivers.Nodup) :
    (m.addEvent x).outcome = .ok x.labels ∧ (m.addEvent x).state = m.synchronized [x] := by
  obtain ⟨ss, hss, hsnames, hsidx⟩ := locate_known h x.event (hk .sender)
  obtain ⟨rs, hrs, hrnames, hridx⟩ := locate_known h x.event (hk .receiver)
  change ss.map (·.1) = x.senders at hsnames
  change rs.map (·.1) = x.receivers at hrnames
  have hsent : ss.isEmpty = !x.isSent := by
    rw [EventEntry.isSent, ← hsnames, List.isEmpty_map, Bool.not_not]
  have hreceived : (!rs.isEmpty) = x.isReceived := by
    rw [EventEntry.isReceived, ← hrnames, List.isEmpty_map]
  unfold addEvent
  simp only [EventEntry.members] at hss hrs
  simp only [hss, hrs, bind, Except.bind, pure, Except.pure, hsent, hreceived]
  cases hx : x.isSent with
  | false =>
    -- nobody sends the event, and it leaves no trace
    have hnone : x.senders = [] := by simpa [EventEntry.isSent] using hx
    simp [Attempt.after, Attempt.ok, EventEntry.labels, hx, synchronized, EventEntry.declared,
      EventEntry.vectors, EventEntry.enable, hnone]
  | true =>
    have hn : ((m.addEventActions x.event x.isReceived).automata.map (·.name)).Nodup := by
      rw [addEventActions_eq]
      exact h.names
    have hvectors : ss.map (fun s =>
        (⟨participants m.system.elements.length x.event s rs, some x.event, none⟩ : Sync)) =
        x.vectors (m.automata.map (·.name)) := by
      rw [EventEntry.vectors, ← hsnames, List.map_map]
      apply List.map_congr_left
      intro s hs
      simp only [Function.comp_apply, participants_eq h x (hsidx s hs) hrnames hridx]
    simp only [Bool.not_true, Bool.false_eq_true, if_false, EventEntry.labels, hx, if_true,
      true_and, hrnames]
    rw [automata_enableReceivers _ hd hn, addEventActions_eq]
    simp only [addVectors, hvectors, synchronized]
    simp [EventEntry.declared, EventEntry.enable, hx]

/-- The labels of the events, put into a sorted list of actions. -/
def collectLabels (entries : List EventEntry) (actions : List String) : List String :=
  entries.foldl (fun actions x =>
    x.labels.foldl (fun names n => insertName n names) actions) actions

theorem known_synchronized {x : EventEntry} {m : Model} (entries : List EventEntry) :
    x.Known (m.synchronized entries) ↔ x.Known m := by
  unfold EventEntry.Known
  rw [names_synchronized]

theorem addEvents_eq {entries : List EventEntry} {m : Model} (h : m.Aligned)
    (hk : ∀ x ∈ entries, x.Known m) (hd : ∀ x ∈ entries, x.receivers.Nodup)
    (actions : List String) :
    (m.addEvents entries actions).outcome = .ok (collectLabels entries actions) ∧
      (m.addEvents entries actions).state = m.synchronized entries := by
  induction entries generalizing m actions with
  | nil => simp [addEvents, Attempt.ok, collectLabels, synchronized]
  | cons x entries ih =>
    obtain ⟨hkx, hk⟩ := List.forall_mem_cons.1 hk
    obtain ⟨hdx, hd⟩ := List.forall_mem_cons.1 hd
    obtain ⟨hout, hstate⟩ := addEvent_eq h hkx hdx
    have hk' : ∀ y ∈ entries, y.Known (m.synchronized [x]) := fun y hy =>
      (known_synchronized [x]).2 (hk y hy)
    obtain ⟨hout', hstate'⟩ := Attempt.andThen_eq_of_ok hout fun m more =>
      m.addEvents entries (more.foldl (fun names n => insertName n names) actions)
    rw [addEvents, hout', hstate', hstate, synchronized_cons x entries]
    exact ih (h.synchronized [x]) hk' hd _

/-- A model whose elements are its automata. -/
theorem aligned_withElements {m : Model} (hn : (m.automata.map (·.name)).Nodup)
    (hs : m.system.syncs = []) : m.withElements.Aligned where
  names := hn
  elements := by simp [withElements, Function.comp_def]
  entries := by simp [withElements, hs]

/-- Synchronizing a model that has no synchronizations yet succeeds if it has all the automata that
take part in events. -/
theorem synchronize_eq {events : EventTable} (ht : events.Sorted) {m : Model}
    (hn : (m.automata.map (·.name)).Nodup) (hs : m.system.syncs = [])
    (hk : ∀ x ∈ events.entries, x.Known m) :
    (m.synchronize events).outcome = .ok (collectLabels events.entries []) ∧
      (m.synchronize events).state = m.withElements.synchronized events.entries :=
  addEvents_eq (aligned_withElements hn hs) hk (fun x hx => (ht.members x hx .receiver).nodup) []

end Model

end AutomataNet
