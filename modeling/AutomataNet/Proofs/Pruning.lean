import AutomataNet.Model.Pruning
import AutomataNet.Proofs.Composition
/-!
# What pruning leaves

Pruning takes the inert automata out of the model one at a time. In an aligned model the order does
not matter, and `Model.pruned` says in one go what is left (`Aligned.prune_eq`).
-/

namespace AutomataNet

theorem Edge.isUnguarded_iff {e : Edge} :
    e.isUnguarded = true ↔ ∀ g ∈ e.guardExp?, g.isTrue = true := by
  unfold isUnguarded
  cases e.guardExp? <;> simp

/-! ## The pruned model -/

/-- The automaton is inert on an action from the list. -/
def Automaton.isDropped (actions : List String) (a : Automaton) (action : String) : Bool :=
  actions.contains action && a.isInert action

/-- The automaton without the edges it is inert on. -/
def Automaton.pruned (actions : List String) (a : Automaton) : Automaton :=
  { a with edges := a.edges.filter fun e => !e.action.any (a.isDropped actions) }

/-- The synchronization without the automata that are inert. -/
def Sync.pruned (actions : List String) (automata : List Automaton) (v : Sync) : Sync :=
  { v with
    participants := List.zipWith (fun a entry => entry.filter (!a.isDropped actions ·)) automata
      v.participants }

/-- What pruning makes of an aligned model, all at once. -/
def Model.pruned (actions : List String) (m : Model) : Model :=
  { m with
    automata := m.automata.map (·.pruned actions)
    system := { m.system with
      syncs := (m.system.syncs.map (·.pruned actions m.automata)).filter (!·.isEmpty) } }

/-- An entry that is left was there before, and its automaton is not inert on it. -/
theorem Sync.getElem?_pruned {actions : List String} {automata : List Automaton} {v : Sync} {i : Nat}
    {label : String} (h : (v.pruned actions automata).participants[i]? = some (some label)) :
    v.participants[i]? = some (some label) ∧
      ∃ a, automata[i]? = some a ∧ a.isDropped actions label = false := by
  simp only [pruned, List.getElem?_zipWith_eq_some] at h
  obtain ⟨a, entry, ha, hentry, hkept⟩ := h
  obtain ⟨rfl, hdropped⟩ := Option.filter_eq_some_iff.1 hkept
  exact ⟨hentry, a, ha, by simpa using hdropped⟩

/-- The edges that carry an action stay, unless the automaton is inert on it. -/
theorem Automaton.edgesWithAction_pruned {actions : List String} {a : Automaton} {action : String}
    (h : a.isDropped actions action = false) :
    (a.pruned actions).edgesWithAction action = a.edgesWithAction action := by
  unfold edgesWithAction pruned
  rw [List.filter_filter]
  apply List.filter_congr
  intro e _
  by_cases he : e.action = some action <;> simp [he, h]

namespace Idler

/-- The edges left when all the idlers are silenced. -/
def silenceAll (is : List Idler) (a : Automaton) : Automaton :=
  { a with
    edges := a.edges.filter fun e =>
      is.all fun i => !(decide (i.automaton = a.name) && decide (e.action = some i.action)) }

/-- The entries left when all the idlers leave. -/
def leaveAll (is : List Idler) (v : Sync) : Sync :=
  { v with
    participants := v.participants.mapIdx fun k entry =>
      if is.any fun i => decide (i.index = k) && decide (entry = some i.action) then none
      else entry }

theorem leaveAll_nil (v : Sync) : leaveAll [] v = v := by
  have hp : v.participants.mapIdx (fun _ entry => entry) = v.participants :=
    List.ext_getElem? fun k => by simp
  simp [leaveAll, hp]

theorem leaveAll_cons (i : Idler) (is : List Idler) (v : Sync) :
    leaveAll (i :: is) v = leaveAll is (i.leave v) := by
  have hp : (leaveAll (i :: is) v).participants = (leaveAll is (i.leave v)).participants := by
    apply List.ext_getElem?
    intro k
    simp only [leaveAll, leave, List.getElem?_mapIdx]
    split
    · -- the idler leaves, and its entry is gone for good
      rename_i hi
      rw [List.getElem?_set]
      by_cases hk : i.index = k
      · subst hk
        obtain ⟨hlt, hget⟩ := List.getElem?_eq_some_iff.1 hi
        simp [hlt, hget]
      · simp [hk]
    · rename_i hi
      cases hv : v.participants[k]? with
      | none => simp
      | some entry =>
        have : ¬(i.index = k ∧ entry = some i.action) := by
          rintro ⟨rfl, rfl⟩
          exact hi hv
        by_cases hk : i.index = k <;> simp_all
  have hr : (i.leave v).result = v.result ∧ (i.leave v).comment = v.comment := by
    unfold leave
    split <;> simp
  cases v
  simp_all [leaveAll]

theorem silenceAll_cons (i : Idler) (is : List Idler) (a : Automaton) :
    silenceAll (i :: is) a = silenceAll is (if a.name = i.automaton then i.silence a else a) := by
  by_cases ha : a.name = i.automaton
  · simp only [silenceAll, silence, ha, if_true, List.filter_filter, List.all_cons]
    congr 2
    funext e
    simp [Bool.and_comm]
  · have : i.automaton ≠ a.name := fun h => ha h.symm
    simp [silenceAll, ha, this]

/-- Removing idlers one after the other. -/
theorem foldl_remove (is : List Idler) {m : Model} (hn : (m.automata.map (·.name)).Nodup) :
    is.foldl (fun m i => i.remove m) m =
      { m with
        automata := m.automata.map (silenceAll is)
        system := { m.system with syncs := m.system.syncs.map (leaveAll is) } } := by
  induction is generalizing m with
  | nil =>
    have hs : silenceAll [] = id := by funext a; simp [silenceAll]
    have hl : leaveAll [] = id := funext leaveAll_nil
    simp [hs, hl]
  | cons i is ih =>
    have hu : (i.remove m).automata =
        m.automata.map fun a => if a.name = i.automaton then i.silence a else a :=
      Model.updateAutomaton_eq_map i.automaton i.silence hn
    have hn' : ((i.remove m).automata.map (·.name)).Nodup := by
      rw [hu, List.map_map]
      convert hn using 2
      funext a
      by_cases ha : a.name = i.automaton <;> simp [ha, silence]
    rw [List.foldl_cons, ih hn', hu]
    simp only [remove, List.map_map, Function.comp_def, ← silenceAll_cons, ← leaveAll_cons]

end Idler

namespace Model

theorem mem_idlers {m : Model} {actions : List String} {i : Idler} :
    i ∈ m.idlers actions ↔ ∃ a ∈ m.automata, a.isDropped actions i.action = true ∧
      i.automaton = a.name ∧ m.system.elementIndex? a.name = some i.index := by
  simp only [idlers, List.mem_flatMap, List.mem_filterMap, List.mem_filter, Option.map_eq_some_iff,
    Automaton.isDropped, Bool.and_eq_true, List.contains_iff_mem]
  constructor
  · rintro ⟨action, ha, a, ⟨hm, hi⟩, k, hk, rfl⟩
    exact ⟨a, hm, ⟨ha, hi⟩, rfl, hk⟩
  · rintro ⟨a, hm, ⟨ha, hi⟩, hn, hk⟩
    exact ⟨i.action, ha, a, ⟨hm, hi⟩, i.index, hk, by rw [← hn]⟩

namespace Aligned

variable {m : Model} (h : m.Aligned) (actions : List String)

include h

/-- The idlers by name. -/
theorem idlers_of_name {a : Automaton} (ha : a ∈ m.automata) (action : String) :
    (∃ i ∈ m.idlers actions, i.automaton = a.name ∧ i.action = action) ↔
      a.isDropped actions action = true := by
  constructor
  · rintro ⟨i, hi, hname, rfl⟩
    obtain ⟨b, hb, hd, hi, -⟩ := mem_idlers.1 hi
    rwa [List.inj_on_of_nodup_map h.names ha hb (hname.symm.trans hi)]
  · intro hd
    obtain ⟨k, hk⟩ := h.exists_elementIndex? ha
    exact ⟨⟨a.name, k, action⟩, mem_idlers.2 ⟨a, ha, hd, rfl, hk⟩, rfl, rfl⟩

/-- The idlers by position. -/
theorem idlers_of_index {k : Nat} (hk : k < m.automata.length) (action : String) :
    (∃ i ∈ m.idlers actions, i.index = k ∧ i.action = action) ↔
      m.automata[k].isDropped actions action = true := by
  rw [← h.idlers_of_name actions (List.getElem_mem hk)]
  constructor
  · rintro ⟨i, hi, rfl, rfl⟩
    obtain ⟨a, ha, -, hname, hidx⟩ := mem_idlers.1 hi
    have hak := automaton?_of_mem h.names ha
    rw [h.automaton?_eq, hidx, Option.bind_some, List.getElem?_eq_getElem hk] at hak
    exact ⟨i, hi, by rw [hname, Option.some.inj hak], rfl⟩
  · rintro ⟨i, hi, hname, rfl⟩
    obtain ⟨a, -, -, hi', hidx⟩ := mem_idlers.1 hi
    rw [← hi', hname, h.elementIndex?_getElem hk] at hidx
    exact ⟨i, hi, (Option.some.inj hidx).symm, rfl⟩

theorem silenceAll_idlers {a : Automaton} (ha : a ∈ m.automata) :
    Idler.silenceAll (m.idlers actions) a = a.pruned actions := by
  unfold Idler.silenceAll Automaton.pruned
  congr 1
  apply List.filter_congr
  intro e _
  cases he : e.action with
  | none => simp
  | some action =>
    have hi := h.idlers_of_name actions ha action
    rw [Option.any_some, Bool.eq_iff_iff, Bool.not_eq_true', ← Bool.not_eq_true, ← hi]
    simp only [List.all_eq_true, Bool.not_eq_true', Bool.and_eq_false_iff, decide_eq_false_iff_not,
      Option.some.injEq]
    grind

theorem leaveAll_idlers {v : Sync} (hv : v ∈ m.system.syncs) :
    Idler.leaveAll (m.idlers actions) v = v.pruned actions m.automata := by
  unfold Idler.leaveAll Sync.pruned
  congr 1
  have hlen := h.length_participants hv
  apply List.ext_getElem
  · simp [hlen]
  · intro k hk hk'
    simp only [List.length_mapIdx] at hk
    have hka : k < m.automata.length := hlen ▸ hk
    rw [List.getElem_mapIdx, List.getElem_zipWith]
    cases he : v.participants[k] with
    | none => simp
    | some action =>
      have hi := h.idlers_of_index actions hka action
      by_cases hd : m.automata[k].isDropped actions action = true
      · obtain ⟨i, hm, hik, hia⟩ := hi.2 hd
        rw [if_pos (List.any_eq_true.2 ⟨i, hm, by simp [hik, hia]⟩)]
        simp [hd, Option.filter]
      · rw [if_neg]
        · simp [hd, Option.filter]
        · intro hany
          obtain ⟨j, hj, hjk⟩ := List.any_eq_true.1 hany
          simp only [Option.some.injEq, Bool.and_eq_true, decide_eq_true_eq] at hjk
          exact hd (hi.1 ⟨j, hj, hjk.1, hjk.2.symm⟩)

/-- Every synchronization has an entry for each idler, so pruning does not fail. -/
theorem idlers_fit : (m.idlers actions).find? (!·.fits m) = none := by
  rw [List.find?_eq_none]
  intro i hi
  obtain ⟨a, -, -, -, hidx⟩ := mem_idlers.1 hi
  have hlt : i.index < m.automata.length := by
    rw [h.elementIndex?_eq] at hidx
    exact (List.findIdx?_eq_some_iff_getElem.1 hidx).1
  simp only [Idler.fits, Bool.not_eq_true', Bool.not_eq_false, List.all_eq_true, decide_eq_true_eq]
  intro v hv
  rw [h.length_participants hv]
  exact hlt

/-- Pruning changes neither names nor elements, and synchronizations keep their length. -/
protected theorem pruned : (m.pruned actions).Aligned := by
  have hnames : (m.pruned actions).automata.map (·.name) = m.automata.map (·.name) := by
    simp [Model.pruned, Automaton.pruned, Function.comp_def]
  refine ⟨hnames ▸ h.names, hnames ▸ h.elements, ?_⟩
  intro v hv
  obtain ⟨w, hw, rfl⟩ := List.mem_map.1 (List.mem_filter.1 hv).1
  simp [Sync.pruned, Model.pruned, h.entries w hw, h.length_elements]

/-- Pruning an aligned model succeeds, and drops the inert automata all at once. -/
theorem prune_eq :
    (m.prune actions).outcome = .ok () ∧ (m.prune actions).state = m.pruned actions := by
  unfold prune
  simp only [h.idlers_fit actions, true_and]
  rw [Idler.foldl_remove _ h.names, List.map_congr_left fun a ha => h.silenceAll_idlers actions ha,
    List.map_congr_left fun v hv => h.leaveAll_idlers actions hv]
  rfl

end Aligned

end Model

end AutomataNet
