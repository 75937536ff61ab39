import AutomataNet.Assembly.Basic
import AutomataNet.Proofs.Pruning
import AutomataNet.Proofs.Synchronization
/-!
# What assembly puts together

A successful assembly in closed form. Statecharts are taken over each on its own
(`Chart.automaton?`), and what is recorded of them makes up the event table. From there on
synchronization and pruning cannot fail, and `Assembler.composed` says what they leave for
expansion.
-/

namespace AutomataNet

/-! ## Taking over statecharts -/

/-- A statechart that passes the checks is accepted and its labels are recorded; any other is
refused, and nothing is recorded. -/
theorem Chart.accept_cases (c : Chart) (capacity : Nat) (t : EventTable) :
    (∃ a, (c.check capacity).outcome = .ok a ∧ (c.accept capacity t).outcome = .ok a ∧
      (c.accept capacity t).state = (t.recordLabels a.name a.actions).1) ∨
    ∃ p, (c.check capacity).outcome = .error p ∧
      (c.accept capacity t).outcome = .error ⟨c.locator, p⟩ ∧
      (c.accept capacity t).state = t := by
  unfold accept
  simp only [Report.outcome_mapError]
  cases (c.check capacity).outcome with
  | ok a => exact .inl ⟨a, rfl, rfl, rfl⟩
  | error p => exact .inr ⟨p, rfl, rfl, rfl⟩

/-- The automaton of a statechart, if it can be taken over. -/
def Chart.automaton? (capacity : Nat) (c : Chart) : Option Automaton :=
  if c.plain then (c.check capacity).outcome.toOption else none

/-- The automata of the statecharts that can be taken over. -/
def automataOf (capacity : Nat) (charts : List Chart) : List Automaton :=
  charts.filterMap (·.automaton? capacity)

/-- The events of some automata. -/
def EventTable.recordAll (automata : List Automaton) (t : EventTable) : EventTable :=
  automata.foldl (fun t a => (t.recordLabels a.name a.actions).1) t

/-- The model with some more automata, and their actions. -/
def Model.join (automata : List Automaton) (m : Model) : Model :=
  { m with
    actions := (automata.flatMap (·.actions)).foldl declareAction m.actions
    automata := m.automata ++ automata }

namespace Assembler

theorem acceptChart_eq_ok_iff {capacity : Nat} {c : Chart} {events events' : EventTable}
    {a : Automaton} :
    (acceptChart capacity c events).outcome = .ok (a, events') ↔
      c.automaton? capacity = some a ∧ events' = (events.recordLabels a.name a.actions).1 := by
  unfold acceptChart Chart.automaton?
  cases hp : c.plain with
  | false => simp
  | true =>
    rcases c.accept_cases capacity events with ⟨b, hcheck, hok, hstate⟩ | ⟨p, hcheck, herror, -⟩
    · simp only [Bool.not_true, Bool.false_eq_true, if_false, hok, hstate, hcheck, Except.ok.injEq,
        Prod.mk.injEq, if_true, Except.toOption, Option.some.injEq]
      constructor
      · rintro ⟨rfl, rfl⟩
        exact ⟨rfl, rfl⟩
      · rintro ⟨rfl, rfl⟩
        exact ⟨rfl, rfl⟩
    · simp [herror, hcheck, Except.toOption]

theorem addAutomaton_eq_ok_iff {a : Automaton} {m m' : Model} :
    (addAutomaton a m).outcome = .ok m' ↔
      a.name ∉ m.automata.map (·.name) ∧ m' = m.join [a] := by
  unfold addAutomaton
  rw [Report.outcome_mapError, Except.mapError_eq_ok_iff, Attempt.toReport_eq_ok_iff,
    Model.foldl_addAction]
  have hfind : (Model.automaton? { m with actions := a.actions.foldl declareAction m.actions }
      a.name).isSome = true ↔ a.name ∈ m.automata.map (·.name) := by
    simp [Model.automaton?, List.find?_isSome]
  unfold Model.addAutomaton
  by_cases hn : a.name ∈ m.automata.map (·.name)
  · rw [if_pos (hfind.2 hn)]
    simp [hn, Attempt.fail, Attempt.Succeeds]
  · rw [if_neg (fun hf => hn (hfind.1 hf))]
    simp [hn, Attempt.after, Attempt.ok, Attempt.Succeeds, Model.join, eq_comm]

theorem addCharts_eq_ok_iff {capacity : Nat} {charts : List Chart} {m : Model}
    {events : EventTable} {r : Model × EventTable} (hn : (m.automata.map (·.name)).Nodup) :
    (addCharts capacity charts m events).outcome = .ok r ↔
      (∀ c ∈ charts, (c.automaton? capacity).isSome = true) ∧
      ((m.automata ++ automataOf capacity charts).map (·.name)).Nodup ∧
      r = (m.join (automataOf capacity charts), events.recordAll (automataOf capacity charts)) := by
  induction charts generalizing m events with
  | nil =>
    simp only [addCharts, automataOf, Report.outcome_ok, Except.ok.injEq, Model.join,
      EventTable.recordAll, List.filterMap_nil, List.flatMap_nil, List.append_nil, List.foldl_nil]
    simpa [hn] using eq_comm
  | cons c charts ih =>
    simp only [addCharts, Report.outcome_bind, Except.bind_eq_ok_iff, Prod.exists,
      acceptChart_eq_ok_iff, addAutomaton_eq_ok_iff, List.forall_mem_cons]
    cases ha : c.automaton? capacity with
    | none => simp
    | some a =>
      have hof : automataOf capacity (c :: charts) = a :: automataOf capacity charts := by
        simp [automataOf, ha]
      have hnames : ((m.automata ++ a :: automataOf capacity charts).map (·.name)).Nodup ↔
          a.name ∉ m.automata.map (·.name) ∧
          (((m.join [a]).automata ++ automataOf capacity charts).map (·.name)).Nodup := by
        rw [Model.join, List.append_assoc, List.singleton_append]
        refine ⟨fun h => ⟨?_, h⟩, fun h => h.2⟩
        rw [List.map_append, List.map_cons, List.nodup_append] at h
        exact fun hmem => h.2.2 _ hmem _ (by simp) rfl
      have hjoin : m.join (a :: automataOf capacity charts) =
          (m.join [a]).join (automataOf capacity charts) := by
        simp [Model.join, List.foldl_append]
      rw [hof, hnames, hjoin]
      constructor
      · rintro ⟨b, t, ⟨hb, rfl⟩, _, ⟨hfresh, rfl⟩, hrest⟩
        obtain rfl := Option.some.inj hb
        have hn' : ((m.join [a]).automata.map (·.name)).Nodup := by
          simpa [Model.join, List.nodup_append, hn] using hfresh
        obtain ⟨hall, hnodup, hr⟩ := (ih hn').1 hrest
        exact ⟨⟨rfl, hall⟩, ⟨hfresh, hnodup⟩, hr⟩
      · rintro ⟨⟨-, hall⟩, ⟨hfresh, hnodup⟩, hr⟩
        have hn' : ((m.join [a]).automata.map (·.name)).Nodup := by
          simpa [Model.join, List.nodup_append, hn] using hfresh
        exact ⟨a, _, ⟨rfl, rfl⟩, _, ⟨hfresh, rfl⟩, (ih hn').2 ⟨hall, hnodup, hr⟩⟩

end Assembler

/-! ## The events of the automata -/

namespace EventTable

theorem takes_recordAll {automata : List Automaton} {t : EventTable} {role : Role}
    {event name : String} :
    (t.recordAll automata).Takes role event name ↔ t.Takes role event name ∨
      ∃ a ∈ automata, a.name = name ∧ role.label event ∈ a.actions := by
  unfold recordAll
  induction automata generalizing t with
  | nil => simp
  | cons a automata ih =>
    rw [List.foldl_cons, ih, takes_recordLabels, List.exists_mem_cons_iff, or_assoc, eq_comm]

theorem Sorted.recordAll {t : EventTable} (h : t.Sorted) (automata : List Automaton) :
    (t.recordAll automata).Sorted := by
  unfold EventTable.recordAll
  induction automata generalizing t with
  | nil => exact h
  | cons a automata ih => exact ih (h.recordLabels a.name a.actions)

/-- The table of some automata, recorded from the start. -/
def ofAutomata (automata : List Automaton) : EventTable := recordAll automata {}

theorem sorted_ofAutomata (automata : List Automaton) : (ofAutomata automata).Sorted :=
  sorted_empty.recordAll automata

/-- An automaton takes part in an event exactly if it has an edge labelled so. -/
theorem takes_ofAutomata {automata : List Automaton} {role : Role} {event name : String} :
    (ofAutomata automata).Takes role event name ↔
      ∃ a ∈ automata, a.name = name ∧ role.label event ∈ a.actions := by
  rw [ofAutomata, takes_recordAll]
  simp [Takes]

/-- Those who take part in events are among the automata that were recorded. -/
theorem known_ofAutomata {automata : List Automaton} {x : EventEntry}
    (hx : x ∈ (ofAutomata automata).entries) {m : Model} (hm : m.automata = automata) :
    x.Known m := by
  intro role name hname
  rw [(sorted_ofAutomata automata).mem_members_iff hx, takes_ofAutomata] at hname
  obtain ⟨a, ha, rfl, -⟩ := hname
  rw [hm]
  exact List.mem_map_of_mem ha

end EventTable

/-! ## The assembled model -/

namespace Assembler

/-- The automata with the synchronizations of their events. -/
def synced (s : Assembler) (automata : List Automaton) : Model :=
  (s.start.join automata).withElements.synchronized (EventTable.ofAutomata automata).entries

/-- The model that is left to expand. -/
def composed (s : Assembler) (automata : List Automaton) : Model :=
  (s.synced automata).pruned (Model.collectLabels (EventTable.ofAutomata automata).entries [])

theorem start_eq (s : Assembler) :
    s.start = { name := s.modelName, type := s.modelType,
                features := [.arrays, .trigonometricFunctions] } := rfl

@[simp] theorem automata_start_join (s : Assembler) (automata : List Automaton) :
    (s.start.join automata).automata = automata := by
  simp [start_eq, Model.join]

@[simp] theorem syncs_start_join (s : Assembler) (automata : List Automaton) :
    (s.start.join automata).system.syncs = [] := rfl

theorem aligned_synced (s : Assembler) {automata : List Automaton}
    (hn : (automata.map (·.name)).Nodup) : (s.synced automata).Aligned := by
  apply Model.Aligned.synchronized
  exact Model.aligned_withElements (by simpa using hn) rfl

theorem synchronize_join (s : Assembler) {automata : List Automaton}
    (hn : (automata.map (·.name)).Nodup) :
    ((s.start.join automata).synchronize (EventTable.ofAutomata automata)).outcome =
        .ok (Model.collectLabels (EventTable.ofAutomata automata).entries []) ∧
      ((s.start.join automata).synchronize (EventTable.ofAutomata automata)).state =
        s.synced automata := by
  refine Model.synchronize_eq (EventTable.sorted_ofAutomata automata) (by simpa using hn) rfl ?_
  intro x hx
  exact EventTable.known_ofAutomata hx (s.automata_start_join automata)

theorem addCharts_start_eq_ok_iff {s : Assembler} {charts : List Chart} {capacity : Nat} {m : Model}
    {t : EventTable} :
    (addCharts capacity charts s.start {}).outcome = .ok (m, t) ↔
      (∀ c ∈ charts, (c.automaton? capacity).isSome = true) ∧
      ((automataOf capacity charts).map (·.name)).Nodup ∧
      m = s.start.join (automataOf capacity charts) ∧
      t = EventTable.ofAutomata (automataOf capacity charts) := by
  have hstart : s.start.automata = [] := by rw [start_eq]
  rw [addCharts_eq_ok_iff (by simp [hstart]), hstart, List.nil_append, Prod.mk.injEq]
  rfl

/-- Assembly succeeds exactly if all statecharts can be taken over, their names are distinct, and
all samples can be expanded. -/
theorem assemble_eq_ok_iff {s : Assembler} {charts : List Chart} {capacity : Nat} {m : Model} :
    (s.assemble charts capacity).outcome = .ok m ↔
      (∀ c ∈ charts, (c.automaton? capacity).isSome = true) ∧
      ((automataOf capacity charts).map (·.name)).Nodup ∧
      ((s.composed (automataOf capacity charts)).expand Model.expansionCap).Succeeds ∧
      ((s.composed (automataOf capacity charts)).expand Model.expansionCap).state = m := by
  unfold assemble
  simp only [Report.outcome_bind, Report.outcome_note, Except.bind_eq_ok_iff, Prod.exists,
    Report.outcome_mapError, Except.mapError_eq_ok_iff, Attempt.toReport_eq_ok_iff,
    addCharts_start_eq_ok_iff]
  constructor
  · rintro ⟨_, -, m₀, t, ⟨hall, hn, rfl, rfl⟩, actions, hactions, m₁, ⟨-, hprune⟩, hexpand⟩
    obtain ⟨hout, hstate⟩ := synchronize_join s hn
    obtain rfl := Except.ok.inj (hout.symm.trans hactions)
    rw [hstate, ((aligned_synced s hn).prune_eq _).2] at hprune
    subst hprune
    exact ⟨hall, hn, hexpand⟩
  · rintro ⟨hall, hn, hexpand⟩
    obtain ⟨hout, hstate⟩ := synchronize_join s hn
    refine ⟨(), trivial, _, _, ⟨hall, hn, rfl, rfl⟩, _, hout, _, ⟨?_, ?_⟩, hexpand⟩
    · rw [hstate]
      exact ⟨(), ((aligned_synced s hn).prune_eq _).1⟩
    · rw [hstate]
      exact ((aligned_synced s hn).prune_eq _).2

end Assembler

/-! ## Two statecharts -/

/-- Counts how often it is rung. -/
def bell : Chart where
  name := "bell"
  automaton :=
    { Automaton.single "bell" "still" with
      edges := [
        { location := "still"
          action := some "ring_on_send"
          destinations := [
            { location := "still"
              assignments := [⟨.var "rings", .ofInt 1, none⟩] }] }] }
  locator := "bell.json"

/-- Opens on the right code, or if it is not locked. -/
def door : Chart where
  name := "door"
  automaton :=
    { name := "door"
      locals := .ofList [
        { name := "code"
          type := .array (.basic .int)
          initial := some (.arrayValue [.ofInt 1] none) },
        { name := "unlocked", type := .basic .bool }]
      locations := [{ name := "closed" }, { name := "open" }]
      initialLocations := ["closed"]
      edges := [
        { location := "closed"
          action := some "ring_on_receive"
          guard := some { exp := .equal (.var "code") (.arrayValue [.ofInt 7] none) }
          destinations := [{ location := "open" }] },
        { location := "closed"
          action := some "ring_on_receive"
          guard := some { exp := .var "unlocked" }
          destinations := [{ location := "open" }] }] }
  locator := "door.json"

end AutomataNet
