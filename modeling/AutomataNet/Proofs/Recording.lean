import AutomataNet.Proofs.Assembly
/-!
# What the event table records

Statecharts are handed in one after the other, and all of them share one table of events. Whichever
were accepted and refused so far, the table shows who sends and who receives an event exactly as the
labels of the accepted automata have it (`events_recorded_exactly`).

A statechart that is accepted adds what its labels say, and one that is refused adds nothing, for
whatever reason it is refused (`Chart.accept_cases`). So the table is that of the accepted
automata alone (`after_eq_recordAll`), of which it is known who takes part in what.
-/

namespace AutomataNet

/-- A statechart that is handed in, with the capacity for its arrays. -/
structure Submission where
  chart : Chart
  capacity : Nat

namespace Submission

/-- Takes over the statechart, unless it is refused. -/
def accept (s : Submission) (t : EventTable) : Attempt EventTable ChartError Automaton :=
  s.chart.accept s.capacity t

theorem state_of_error {s : Submission} {t : EventTable} {e : ChartError}
    (h : (s.accept t).outcome = .error e) : (s.accept t).state = t := by
  rcases s.chart.accept_cases s.capacity t with ⟨a, -, hok, -⟩ | ⟨_, -, -, hstate⟩
  · rw [accept, hok] at h
    cases h
  · exact hstate

end Submission

namespace EventTable

/-! ## Runs -/

/-- The table after some submissions, each of which finds what the ones before it have left. -/
def after (t : EventTable) (submissions : List Submission) : EventTable :=
  submissions.foldl (fun t s => (s.accept t).state) t

/-- What each submission is answered with, in order. -/
def answers : List Submission → EventTable → List (Except ChartError Automaton)
  | [], _ => []
  | s :: submissions, t => (s.accept t).outcome :: answers submissions (s.accept t).state

/-- Only what is accepted is recorded. -/
theorem after_eq_recordAll (t : EventTable) (submissions : List Submission) :
    t.after submissions = t.recordAll ((answers submissions t).filterMap Except.toOption) := by
  induction submissions generalizing t with
  | nil => rfl
  | cons s submissions ih =>
    change (s.accept t).state.after submissions = _
    rw [ih, answers, Submission.accept]
    rcases s.chart.accept_cases s.capacity t with ⟨a, -, hok, hstate⟩ | ⟨p, -, herror, hstate⟩
    · rw [hok, hstate]
      rfl
    · rw [herror, hstate]
      rfl

theorem sorted_after (submissions : List Submission) : (after {} submissions).Sorted := by
  rw [after_eq_recordAll]
  exact sorted_ofAutomata _

theorem takes_after {submissions : List Submission} {role : Role} {event name : String} :
    (after {} submissions).Takes role event name ↔
      ∃ a, .ok a ∈ answers submissions {} ∧ a.name = name ∧
        ∃ e ∈ a.edges, e.action = some (role.label event) := by
  rw [after_eq_recordAll, ← ofAutomata, takes_ofAutomata]
  simp only [List.mem_filterMap, Except.toOption_eq_some_iff, exists_eq_right, Automaton.actions]

/-! ## Looking up an event -/

section

variable {t : EventTable} {role : Role} {event name : String}

/-- Looked up in the table, the event has the automaton among those who take part in this role. -/
def Lists (t : EventTable) (role : Role) (event name : String) : Prop :=
  ∃ x, t.find? event = some x ∧ name ∈ x.members role

/-- The label is recorded as one of this role: somebody takes part in its event so. -/
def Records (t : EventTable) (role : Role) (label : String) : Prop :=
  ∃ event name, label = role.label event ∧ t.Lists role event name

theorem Sorted.find?_eq_some_iff (h : t.Sorted) {x : EventEntry} :
    t.find? event = some x ↔ x ∈ t.entries ∧ x.event = event :=
  find?_key_eq_some_iff h.events.nodup

theorem Sorted.lists_iff (h : t.Sorted) : t.Lists role event name ↔ t.Takes role event name := by
  simp only [Lists, Takes, h.find?_eq_some_iff, and_assoc]

theorem Sorted.isSome_find?_iff (h : t.Sorted) :
    (t.find? event).isSome = true ↔ ∃ role name, t.Lists role event name := by
  rw [Option.isSome_iff_exists]
  constructor
  · rintro ⟨x, hx⟩
    obtain ⟨role, hne⟩ := h.exchanged x (h.find?_eq_some_iff.1 hx).1
    obtain ⟨name, hname⟩ := List.exists_mem_of_ne_nil _ hne
    exact ⟨role, name, x, hx, hname⟩
  · rintro ⟨role, name, x, hx, -⟩
    exact ⟨x, hx⟩

/-- Recording a label leaves the senders as they are, or the receivers. -/
theorem exists_role_kept (t : EventTable) (automaton label : String) :
    ∃ role, ∀ event name, (t.recordLabel automaton label).1.Takes role event name ↔
      t.Takes role event name := by
  by_cases hsent : ∃ event, label = Role.sender.label event
  · obtain ⟨event, rfl⟩ := hsent
    refine ⟨.receiver, fun _ _ => ?_⟩
    simp [takes_recordLabel, Role.label_inj]
  · refine ⟨.sender, fun event _ => ?_⟩
    rw [takes_recordLabel]
    exact or_iff_left fun h => hsent ⟨event, h.2⟩

theorem not_records_both (t : EventTable) (label : String) :
    ¬(t.Records .sender label ∧ t.Records .receiver label) := by
  rintro ⟨⟨event, _, rfl, -⟩, event', _, hsame, -⟩
  exact absurd hsame (sendLabel_ne_receiveLabel event event')

end

end EventTable

open EventTable in
/-- After any submissions to an empty table, an automaton takes part in an event exactly if one of
that name has been accepted with an edge labelled so. An event is known exactly if somebody takes
part in it, and has one entry then. A submission that is refused leaves the table as it is. No label
counts both as sent and as received, and recording one does not touch both. -/
theorem events_recorded_exactly (submissions : List Submission) :
    (∀ role event name, (after {} submissions).Lists role event name ↔
      ∃ a, .ok a ∈ answers submissions {} ∧ a.name = name ∧
        ∃ e ∈ a.edges, e.action = some (role.label event)) ∧
    (∀ event, ((after {} submissions).find? event).isSome = true ↔
      ∃ role name, (after {} submissions).Lists role event name) ∧
    (∀ event x, (after {} submissions).find? event = some x ↔
      x ∈ (after {} submissions).entries ∧ x.event = event) ∧
    (∀ (s : Submission) e, (s.accept (after {} submissions)).outcome = .error e →
      (s.accept (after {} submissions)).state = after {} submissions) ∧
    (∀ label, ¬((after {} submissions).Records .sender label ∧
      (after {} submissions).Records .receiver label)) ∧
    ∀ automaton label, ∃ role, ∀ event name,
      ((after {} submissions).recordLabel automaton label).1.Lists role event name ↔
        (after {} submissions).Lists role event name := by
  have hsorted := sorted_after submissions
  refine ⟨fun role event name => hsorted.lists_iff.trans takes_after,
    fun _ => hsorted.isSome_find?_iff, fun _ _ => hsorted.find?_eq_some_iff,
    fun _ _ => Submission.state_of_error, not_records_both _, fun automaton label => ?_⟩
  obtain ⟨role, hkept⟩ := exists_role_kept (after {} submissions) automaton label
  refine ⟨role, fun event name => ?_⟩
  rw [(hsorted.recordLabel automaton label).lists_iff, hsorted.lists_iff, hkept]

/-- Sends an event without a name, and receives one that is named like a label. -/
def echo : Chart where
  name := "echo"
  automaton :=
    { Automaton.single "echo" "room" with
      edges := [
        { location := "room"
          action := some "_on_send"
          destinations := [{ location := "room" }] },
        { location := "room"
          action := some "ring_on_send_on_receive"
          destinations := [{ location := "room" }] }] }
  locator := "echo.json"

/-- The door is refused twice: under another name, and for want of room. -/
def callers : List Submission :=
  [⟨bell, 1⟩, ⟨{ door with name := "gate" }, 1⟩, ⟨door, 0⟩, ⟨echo, 1⟩]

open EventTable in
/-- So nobody receives the ring, and what the echo receives is another event. -/
theorem events_recorded_exactly_callers :
    (after {} callers).entries =
      [{ event := "", senders := ["echo"] },
       { event := "ring", senders := ["bell"] },
       { event := "ring_on_send", receivers := ["echo"] }] ∧
    (∃ a, .ok a ∈ answers callers {} ∧ a.name = "echo" ∧
      ∃ e ∈ a.edges, e.action = some "ring_on_send_on_receive") ∧
    (¬∃ a, .ok a ∈ answers callers {} ∧ a.name = "door" ∧
      ∃ e ∈ a.edges, e.action = some "ring_on_receive") ∧
    ((⟨door, 0⟩ : Submission).accept (after {} callers)).state = after {} callers := by
  have hentries : (after {} callers).entries =
      [{ event := "", senders := ["echo"] },
       { event := "ring", senders := ["bell"] },
       { event := "ring_on_send", receivers := ["echo"] }] := by
    decide +kernel
  have hecho : (after {} callers).Lists .receiver "ring_on_send" "echo" :=
    ⟨{ event := "ring_on_send", receivers := ["echo"] }, by rw [EventTable.find?, hentries]; decide,
      by decide⟩
  have hdoor : ¬(after {} callers).Lists .receiver "ring" "door" := by
    rintro ⟨x, hx, hmem⟩
    rw [EventTable.find?, hentries] at hx
    obtain rfl : { event := "ring", senders := ["bell"] } = x := by simpa using hx
    cases hmem
  obtain ⟨htakes, -, -, hrefused, -, -⟩ := events_recorded_exactly callers
  refine ⟨hentries, (htakes _ _ _).1 hecho, fun h => hdoor ((htakes _ _ _).2 h),
    hrefused _ (.mk "door.json" (.array (.capacityExceeded "code" 1 1 0))) ?_⟩
  rfl

end AutomataNet
