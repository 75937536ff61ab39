import AutomataNet.Proofs.WellFormed
/-!
# The locations an automaton visits

A statechart is refused if one of its edges leads from or to a location that it does not declare.
The locations where it starts are not looked at. So what an automaton visits is declared, unless it
starts in a location that is not: there it is stuck, whatever self-loops it has got by then
(`visited_declared_iff_initial_declared`).
-/

namespace AutomataNet

namespace Automaton

/-- A run can come to the location. It starts in an initial location and follows edges, each to any
of its destinations. -/
inductive Visits (a : Automaton) : String → Prop
  | start {l : String} : l ∈ a.initialLocations → Visits a l
  | step {e : Edge} {d : Destination} :
      Visits a e.location → e ∈ a.edges → d ∈ e.destinations → Visits a d.location

/-- No edge leaves the location. -/
def Stuck (a : Automaton) (l : String) : Prop := ∀ e ∈ a.edges, e.location ≠ l

/-- A synchronized model has `b` where there was `a` before. -/
def Becomes (a b : Automaton) : Prop :=
  ∃ (m : Model) (events : EventTable) (i : Nat),
    m.automata[i]? = some a ∧ (m.synchronize events).state.automata[i]? = some b

/-- What remains of a run: it is in a declared location, or has not left its initial one. -/
theorem Closed.visits_cases {a : Automaton} (h : a.Closed) {l : String} (hv : a.Visits l) :
    a.hasLocation l = true ∨ l ∈ a.initialLocations := by
  cases hv with
  | start hl => exact .inr hl
  | step _ he hd => exact .inl ((h _ he).2 _ hd)

theorem Closed.stuck {a : Automaton} (h : a.Closed) {l : String} (hl : a.hasLocation l = false) :
    a.Stuck l := by
  rintro e he rfl
  rw [(h e he).1] at hl
  contradiction

theorem Closed.visits_declared_iff {a : Automaton} (h : a.Closed) :
    (∀ l, a.Visits l → a.hasLocation l = true) ↔
      ∀ l ∈ a.initialLocations, a.hasLocation l = true := by
  constructor
  · intro hall l hl
    exact hall l (.start hl)
  · intro hinitial l hv
    exact (h.visits_cases hv).elim id (hinitial l)

/-! ## Adding self-loops -/

theorem Closed.inputEnable {a : Automaton} (h : a.Closed) (action : String) :
    (a.inputEnable action).Closed := by
  intro e he
  change a.hasLocation e.location = true ∧ ∀ d ∈ e.destinations, a.hasLocation d.location = true
  rcases List.mem_append.1 he with he | he
  · exact h e he
  · -- a self-loop stays in a location of the automaton
    obtain ⟨-, l, hl, hloc, hdest⟩ := loops_of_mem_discards he
    have hknown : a.hasLocation l.name = true := hasLocation_iff.2 ⟨l, hl, rfl⟩
    rw [hloc, hdest]
    exact ⟨hknown, by simpa using hknown⟩

/-- The automaton made ready for some actions, one after the other. -/
def inputEnableAll (a : Automaton) (actions : List String) : Automaton :=
  actions.foldl inputEnable a

theorem Closed.inputEnableAll {a : Automaton} (h : a.Closed) (actions : List String) :
    (a.inputEnableAll actions).Closed := by
  induction actions generalizing a with
  | nil => exact h
  | cons action actions ih => exact ih (h.inputEnable action)

theorem inputEnableAll_eq (a : Automaton) (actions : List String) :
    ∃ added, a.inputEnableAll actions = { a with edges := a.edges ++ added } := by
  induction actions generalizing a with
  | nil => exact ⟨[], by simp [inputEnableAll]⟩
  | cons action actions ih =>
    obtain ⟨added, h⟩ := ih (a.inputEnable action)
    refine ⟨a.discards action ++ added, ?_⟩
    change (a.inputEnable action).inputEnableAll actions = _
    rw [h]
    simp [inputEnable]

end Automaton

/-! ## Synchronizing

Whatever the model and the events, and whether or not all events are found, automata keep their
places and are made ready for some actions.
-/

namespace Model

/-- Automata keep their places from the one model to the other, and are made ready for some
actions. -/
def Readies (m m' : Model) : Prop :=
  ∀ (i : Nat) (a : Automaton), m.automata[i]? = some a →
    ∃ actions, m'.automata[i]? = some (a.inputEnableAll actions)

theorem Readies.of_eq {m m' : Model} (h : m'.automata = m.automata) : m.Readies m' := by
  intro i a ha
  exact ⟨[], h ▸ ha⟩

theorem Readies.trans {m₁ m₂ m₃ : Model} (h : m₁.Readies m₂) (h' : m₂.Readies m₃) :
    m₁.Readies m₃ := by
  intro i a ha
  obtain ⟨first, hfirst⟩ := h i a ha
  obtain ⟨second, hsecond⟩ := h' i _ hfirst
  refine ⟨first ++ second, ?_⟩
  rw [hsecond, Automaton.inputEnableAll, Automaton.inputEnableAll, Automaton.inputEnableAll,
    List.foldl_append]

theorem getElem?_updateAutomaton (name action : String) {as : List Automaton} {i : Nat}
    {a : Automaton} (ha : as[i]? = some a) :
    ∃ actions, (updateAutomaton name (·.inputEnable action) as)[i]? =
      some (a.inputEnableAll actions) := by
  induction as generalizing i with
  | nil => simp at ha
  | cons b as ih =>
    unfold updateAutomaton
    split
    · cases i with
      | zero =>
        obtain rfl := Option.some.inj ha
        exact ⟨[action], rfl⟩
      | succ i => exact ⟨[], ha⟩
    · cases i with
      | zero => exact ⟨[], ha⟩
      | succ i => exact ih ha

theorem readies_enableReceivers (action : String) (names : List String) (m : Model) :
    m.Readies (enableReceivers action names m).1 := by
  induction names generalizing m with
  | nil => exact .of_eq rfl
  | cons name names ih =>
    have hfirst : m.Readies
        { m with automata := updateAutomaton name (·.inputEnable action) m.automata } :=
      fun _ _ ha => getElem?_updateAutomaton name action ha
    exact hfirst.trans (ih _)

theorem readies_addEvent (x : EventEntry) (m : Model) : m.Readies (m.addEvent x).state := by
  unfold addEvent
  dsimp only
  split
  · exact .of_eq rfl
  · split
    · exact .of_eq rfl
    · rename_i senders receivers _ _
      have hactions : m.Readies (m.addEventActions x.event !receivers.isEmpty) :=
        .of_eq (by rw [addEventActions_eq])
      have henable := readies_enableReceivers (receiveLabel x.event) (receivers.map (·.1))
        (m.addEventActions x.event !receivers.isEmpty)
      exact hactions.trans (henable.trans (.of_eq rfl))

theorem readies_addEvents (entries : List EventEntry) (actions : List String) (m : Model) :
    m.Readies (m.addEvents entries actions).state := by
  induction entries generalizing actions m with
  | nil => exact .of_eq rfl
  | cons x entries ih =>
    have hx := m.readies_addEvent x
    rw [addEvents]
    cases hout : (m.addEvent x).outcome with
    | error e =>
      -- the events after one that fails are not looked at
      simp only [Attempt.andThen, hout]
      exact hx
    | ok more =>
      obtain ⟨-, hstate⟩ := Attempt.andThen_eq_of_ok hout fun m more =>
        m.addEvents entries (more.foldl (fun names n => insertName n names) actions)
      rw [hstate]
      exact hx.trans (ih _ _)

theorem readies_synchronize (events : EventTable) (m : Model) :
    m.Readies (m.synchronize events).state := by
  have helements : m.Readies m.withElements := .of_eq rfl
  exact helements.trans (m.withElements.readies_addEvents events.entries [])

end Model

namespace Automaton

theorem Becomes.exists_actions {a b : Automaton} (h : a.Becomes b) :
    ∃ actions, b = a.inputEnableAll actions := by
  obtain ⟨m, events, i, ha, hb⟩ := h
  obtain ⟨actions, hready⟩ := m.readies_synchronize events i a ha
  exact ⟨actions, Option.some.inj (hb.symm.trans hready)⟩

/-- Without events it stays what it is. -/
theorem becomes_self (a : Automaton) : a.Becomes a :=
  ⟨{ name := "", automata := [a] }, {}, 0, rfl, rfl⟩

end Automaton

/-! ## Statecharts -/

theorem Chart.check_of_accept {capacity : Nat} {c : Chart} {events : EventTable} {a : Automaton}
    (h : (c.accept capacity events).outcome = .ok a) : (c.check capacity).outcome = .ok a := by
  rcases c.accept_cases capacity events with ⟨b, hcheck, hok, -⟩ | ⟨p, -, herror, -⟩
  · obtain rfl := Except.ok.inj (hok.symm.trans h)
    exact hcheck
  · rw [herror] at h
    cases h

/-- An automaton taken over from a statechart visits declared locations only, before and after
self-loops are added to it, exactly if its initial locations are declared. Where they are not, the
initial location is all it visits that is not declared, and it cannot leave it. -/
theorem visited_declared_iff_initial_declared (c : Chart) (capacity : Nat) (events : EventTable)
    (a : Automaton) (h : (c.accept capacity events).outcome = .ok a) :
    a.Becomes a ∧ ∀ b, a.Becomes b →
      ((∀ l, b.Visits l → a.hasLocation l = true) ↔
        ∀ l ∈ a.initialLocations, a.hasLocation l = true) ∧
      ∀ l, b.Visits l → a.hasLocation l = true ∨ l ∈ a.initialLocations ∧ b.Stuck l := by
  refine ⟨a.becomes_self, fun b hb => ?_⟩
  obtain ⟨actions, rfl⟩ := hb.exists_actions
  have hclosed := (Chart.closed_of_check (Chart.check_of_accept h)).inputEnableAll actions
  obtain ⟨added, heq⟩ := a.inputEnableAll_eq actions
  -- neither the locations nor the initial ones change
  have hlocation : ∀ l, (a.inputEnableAll actions).hasLocation l = a.hasLocation l := by
    intro l
    rw [heq]
    rfl
  have hinitial : (a.inputEnableAll actions).initialLocations = a.initialLocations := by rw [heq]
  constructor
  · simpa only [hlocation, hinitial] using hclosed.visits_declared_iff
  · intro l hv
    cases hl : a.hasLocation l with
    | true => exact .inl rfl
    | false =>
      have hl' := (hlocation l).trans hl
      have hstart := (hclosed.visits_cases hv).resolve_left (by simp [hl'])
      exact .inr ⟨hinitial ▸ hstart, hclosed.stuck hl'⟩

/-- A boat that declares a port, where it can be loaded, but may also start at sea. -/
def boat : Chart where
  name := "boat"
  locator := "boat.json"
  automaton := {
    name := "boat"
    locations := [{ name := "port" }]
    initialLocations := ["port", "sea"]
    edges := [
      { location := "port"
        action := some "load_on_receive"
        guard := some { exp := .var "empty" }
        destinations := [{ location := "port" }] }] }

/-- The crane that loads it. -/
def crane : Automaton :=
  { Automaton.single "crane" "quay" with
    edges := [
      { location := "quay"
        action := some "load_on_send"
        destinations := [{ location := "quay" }] }] }

/-- The boat with the self-loop that it gets for the load it does not take. -/
def loadedBoat : Automaton :=
  boat.automaton.inputEnable "load_on_receive"

theorem visited_declared_iff_initial_declared_boat :
    (boat.accept 3 {}).outcome = .ok boat.automaton ∧ boat.automaton.Becomes loadedBoat ∧
      loadedBoat.edges.length = 2 ∧ loadedBoat.Visits "sea" ∧
      ("sea" ∈ boat.automaton.initialLocations ∧ loadedBoat.Stuck "sea") := by
  have haccept : (boat.accept 3 {}).outcome = .ok boat.automaton := rfl
  have hbecomes : boat.automaton.Becomes loadedBoat :=
    ⟨{ name := "harbour", automata := [boat.automaton, crane] },
      EventTable.ofAutomata [boat.automaton, crane], 0, rfl, rfl⟩
  have hsea : loadedBoat.Visits "sea" := .start (by decide)
  refine ⟨haccept, hbecomes, rfl, hsea, ?_⟩
  have hcases := ((visited_declared_iff_initial_declared boat 3 {} _ haccept).2 _ hbecomes).2 _ hsea
  exact hcases.resolve_left (by decide)

/-- The boat is taken over, and starts in a location that it does not have. -/
theorem boat_starts_undeclared :
    (boat.accept 3 {}).outcome = .ok boat.automaton ∧ boat.automaton.Visits "sea" ∧
      boat.automaton.hasLocation "sea" = false :=
  ⟨rfl, .start (by decide), rfl⟩

end AutomataNet
