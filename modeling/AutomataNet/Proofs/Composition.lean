import AutomataNet.Model.Basic
import AutomataNet.Proofs.Declarations
/-!
# Elements and automata

In an aligned model the elements of the composition are the automata in order, and every
synchronization has an entry for each. The passes keep it that way, and there positions and names
are two ways to say the same.
-/

namespace AutomataNet

/-- The action of an automaton in a synchronization. -/
def Composition.entry? (c : Composition) (v : Sync) (automaton : String) : Option String :=
  (c.elementIndex? automaton).bind fun i => v.participants[i]?.join

namespace Model

structure Aligned (m : Model) : Prop where
  names : (m.automata.map (·.name)).Nodup
  elements : m.system.elements.map (·.automaton) = m.automata.map (·.name)
  entries : ∀ v ∈ m.system.syncs, v.participants.length = m.system.elements.length

/-! ## Names and positions -/

theorem find?_name_eq_some_iff {automata : List Automaton} (hn : (automata.map (·.name)).Nodup)
    {name : String} {a : Automaton} :
    automata.find? (·.name = name) = some a ↔ a ∈ automata ∧ a.name = name :=
  find?_key_eq_some_iff hn

theorem automaton?_of_mem {m : Model} (hn : (m.automata.map (·.name)).Nodup) {a : Automaton}
    (ha : a ∈ m.automata) : m.automaton? a.name = some a :=
  (find?_name_eq_some_iff hn).2 ⟨ha, rfl⟩

namespace Aligned

variable {m : Model} (h : m.Aligned)

include h

theorem length_elements : m.system.elements.length = m.automata.length := by
  simpa using congrArg List.length h.elements

theorem length_participants {v : Sync} (hv : v ∈ m.system.syncs) :
    v.participants.length = m.automata.length :=
  (h.entries v hv).trans h.length_elements

theorem elementIndex?_eq (name : String) :
    m.system.elementIndex? name = m.automata.findIdx? (·.name = name) := by
  have he := congrArg (List.findIdx? fun n => decide (n = name)) h.elements
  simpa [Composition.elementIndex?, List.findIdx?_map, Function.comp_def] using he

/-- The automaton of a name stands where its element stands. -/
theorem automaton?_eq (name : String) :
    m.automaton? name = (m.system.elementIndex? name).bind (m.automata[·]?) := by
  rw [h.elementIndex?_eq]
  exact List.find?_eq_bind_findIdx?_getElem?

theorem elementIndex?_getElem {i : Nat} (hi : i < m.automata.length) :
    m.system.elementIndex? m.automata[i].name = some i := by
  rw [h.elementIndex?_eq, List.findIdx?_eq_some_iff_getElem]
  refine ⟨hi, by simp, ?_⟩
  intro j hj hname
  have hij : (m.automata.map (·.name))[j]? = (m.automata.map (·.name))[i]? := by
    simpa [List.getElem?_eq_getElem hi, List.getElem?_eq_getElem (hj.trans hi)] using hname
  exact List.nodup_iff_getElem?_ne_getElem?.1 h.names j i hj (by simpa using hi) hij

theorem elementIndex?_eq_some_iff {k : Nat} (hk : k < m.automata.length) {name : String} :
    m.system.elementIndex? name = some k ↔ m.automata[k].name = name := by
  constructor
  · intro hi
    rw [h.elementIndex?_eq, List.findIdx?_eq_some_iff_getElem] at hi
    simpa using hi.2.1
  · rintro rfl
    exact h.elementIndex?_getElem hk

theorem exists_elementIndex? {a : Automaton} (ha : a ∈ m.automata) :
    ∃ k, m.system.elementIndex? a.name = some k := by
  obtain ⟨k, hk, rfl⟩ := List.getElem_of_mem ha
  exact ⟨k, h.elementIndex?_getElem hk⟩

end Aligned

/-! ## Changing one automaton -/

theorem updateAutomaton_of_not_mem {name : String} (f : Automaton → Automaton) {as : List Automaton}
    (h : ∀ a ∈ as, a.name ≠ name) : updateAutomaton name f as = as := by
  induction as with
  | nil => rfl
  | cons a as ih =>
    rw [updateAutomaton, if_neg (h a (by simp)), ih fun b hb => h b (by simp [hb])]

/-- Where names are distinct, the first automaton of a name is the only one. -/
theorem updateAutomaton_eq_map (name : String) (f : Automaton → Automaton) {as : List Automaton}
    (hn : (as.map (·.name)).Nodup) :
    updateAutomaton name f as = as.map fun a => if a.name = name then f a else a := by
  induction as with
  | nil => rfl
  | cons a as ih =>
    simp only [List.map_cons, List.nodup_cons] at hn
    rw [updateAutomaton, List.map_cons, ← ih hn.2]
    by_cases ha : a.name = name
    · rw [if_pos ha, if_pos ha, updateAutomaton_of_not_mem]
      rintro b hb rfl
      exact hn.1 (ha ▸ List.mem_map_of_mem hb)
    · rw [if_neg ha, if_neg ha]

end Model

end AutomataNet
