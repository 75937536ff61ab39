import AutomataNet.Proofs.Readiness
import AutomataNet.Proofs.WellFormed
/-!
# When an action is discarded

The self-loops that make an automaton ready for an action must not compete with the edges that
handle it. Each of them stands in a location of the automaton, and it is enabled exactly when none
of the edges is that take the action there (`Valuation.exists_discard_iff`): an edge that always
takes it leaves no room for a self-loop, and guards are answered by the negation of them all.
-/

namespace AutomataNet

namespace Valuation

variable (V : Valuation)

/-- The guard of the edge is missing or true. -/
def Enables (e : Edge) : Prop := ∀ g ∈ e.guardExp?, V.truth g = some true

/-- The negated disjunction of some guards is true exactly if none of them is. -/
theorem truth_neg_foldl_disj {g : Expr} {gs : List Expr}
    (h : ∀ x ∈ g :: gs, ∃ b, V.truth x = some b) :
    V.truth (.neg (gs.foldl .disj g)) = some true ↔ ∀ x ∈ g :: gs, V.truth x ≠ some true := by
  have hneg : V.truth (.neg (gs.foldl .disj g)) =
      some !((g :: gs).any fun x => V.truth x = some true) :=
    V.truth_not none (V.truth_foldl_disj h)
  rw [hneg, Option.some.injEq, Bool.not_eq_true', List.any_eq_false]
  simp only [decide_eq_true_eq, ne_eq]

variable {a : Automaton} {action : String}

/-- A location has an enabled self-loop exactly if no guard on the edges that take the action there
is missing or true. -/
theorem exists_discard_iff {l : Location}
    (hb : ∀ g, some g ∈ a.guardsAt action l.name → ∃ b, V.truth g = some b) :
    (∃ e, a.discard? action l = some e ∧ V.Enables e) ↔
      ¬ ∃ o ∈ a.guardsAt action l.name, ∀ g ∈ o, V.truth g = some true := by
  rcases a.discard?_cases action l with
    ⟨⟨o, ho, htrue⟩, hnone⟩ | ⟨guard, hd, ⟨rfl, hnil⟩ | ⟨g, gs, rfl, hguards⟩⟩
  · -- an edge that always takes the action is enabled
    have hold : ∃ o ∈ a.guardsAt action l.name, ∀ g ∈ o, V.truth g = some true :=
      ⟨o, ho, fun g hg => V.truth_of_isTrue (htrue g hg)⟩
    simpa [hnone] using hold
  · simp [hd, hnil, Enables, Edge.guardExp?]
  · rw [hguards] at hb ⊢
    have hvalues : ∀ x ∈ g :: gs, ∃ b, V.truth x = some b := fun x hx =>
      hb x (List.mem_map_of_mem hx)
    have hneg := V.truth_neg_foldl_disj hvalues
    simpa [hd, Enables, Edge.guardExp?] using hneg

/-- The edges that take an action in a location, seen by their guards. -/
theorem exists_enabled_iff {location : String} :
    (∃ e ∈ a.edges, e.location = location ∧ e.action = some action ∧ V.Enables e) ↔
      ∃ o ∈ a.guardsAt action location, ∀ g ∈ o, V.truth g = some true := by
  constructor
  · rintro ⟨e, he, hloc, hact, henabled⟩
    exact ⟨_, Automaton.mem_guardsAt.2 ⟨e, he, hloc, hact, rfl⟩, henabled⟩
  · rintro ⟨o, ho, htrue⟩
    obtain ⟨e, he, hloc, hact, rfl⟩ := Automaton.mem_guardsAt.1 ho
    exact ⟨e, he, hloc, hact, htrue⟩

end Valuation

/-- All self-loops of a location are the same, even if it is listed more than once. -/
theorem Automaton.mem_discards_iff {a : Automaton} {action : String} {l : Location}
    (hl : l ∈ a.locations) {e : Edge} :
    e ∈ a.discards action ∧ e.location = l.name ↔ a.discard? action l = some e := by
  have hlocation : ∀ k : Location, a.discard? action k = some e → e.location = k.name := by
    intro k hk
    rcases a.discard?_cases action k with ⟨-, hnone⟩ | ⟨guard, hd, -⟩
    · rw [hnone] at hk
      contradiction
    · rw [hd] at hk
      obtain rfl := Option.some.inj hk
      rfl
  constructor
  · rintro ⟨he, hloc⟩
    obtain ⟨k, -, hk⟩ := List.mem_filterMap.1 he
    have hname : k.name = l.name := (hlocation k hk).symm.trans hloc
    rw [← hk, discard?, discard?, hname]
  · intro hd
    exact ⟨List.mem_filterMap.2 ⟨l, hl, hd⟩, hlocation l hd⟩

/-! ## Main theorem -/

/-- Making an automaton ready for an action only adds edges, after the old ones. They are self-loops
without weight or assignments in locations of the automaton, and they take the action exactly when
the old edges do not: whatever the variables hold, as long as the guards have truth values, a
location has an added edge that is enabled if and only if none of its old edges with the action is.
-/
theorem discards_exactly_unhandled (a : Automaton) (action : String) (V : Valuation)
    (hb : ∀ e ∈ a.edges, e.action = some action → ∀ g ∈ e.guardExp?, ∃ b, V.truth g = some b) :
    ∃ added, a.inputEnable action = { a with edges := a.edges ++ added } ∧
      (∀ e ∈ added, e.action = some action ∧ a.hasLocation e.location = true ∧
        e.destinations =
          [{ location := e.location, probability := none, assignments := [], comment := none }]) ∧
      ∀ l ∈ a.locations,
        ((∃ e ∈ added, e.location = l.name ∧ V.Enables e) ↔
          ¬ ∃ e ∈ a.edges, e.location = l.name ∧ e.action = some action ∧ V.Enables e) := by
  refine ⟨a.discards action, rfl, ?_, ?_⟩
  · intro e he
    obtain ⟨haction, l, hl, hloc, hdest⟩ := Automaton.loops_of_mem_discards he
    refine ⟨haction, Automaton.hasLocation_iff.2 ⟨l, hl, hloc.symm⟩, ?_⟩
    rw [hdest, hloc]
  · intro l hl
    have hvalues : ∀ g, some g ∈ a.guardsAt action l.name → ∃ b, V.truth g = some b := by
      intro g hg
      obtain ⟨e, he, -, haction, hguard⟩ := Automaton.mem_guardsAt.1 hg
      exact hb e he haction g hguard
    rw [V.exists_enabled_iff, ← V.exists_discard_iff hvalues]
    apply exists_congr
    intro e
    rw [← Automaton.mem_discards_iff hl, and_assoc]

/-- The code is wrong and the door is not unlocked, so the ring is discarded. -/
theorem discards_exactly_unhandled_door :
    (∀ e ∈ door.automaton.edges, e.action = some "ring_on_receive" →
      e.guardExp?.map lockedOut.truth = some (some false)) ∧
    ∃ added, (door.automaton.inputEnable "ring_on_receive").edges = door.automaton.edges ++ added ∧
      ∃ e ∈ added, e.location = "closed" ∧ lockedOut.Enables e := by
  have hfalse : ∀ e ∈ door.automaton.edges, e.action = some "ring_on_receive" →
      e.guardExp?.map lockedOut.truth = some (some false) := by
    decide +kernel
  have hvalues : ∀ e ∈ door.automaton.edges, e.action = some "ring_on_receive" →
      ∀ g ∈ e.guardExp?, ∃ b, lockedOut.truth g = some b := by
    intro e he haction g hg
    have hmap := hfalse e he haction
    rw [hg] at hmap
    exact ⟨false, Option.some.inj hmap⟩
  obtain ⟨added, heq, -, hdiscards⟩ :=
    discards_exactly_unhandled door.automaton "ring_on_receive" lockedOut hvalues
  refine ⟨hfalse, added, by rw [heq], (hdiscards { name := "closed" } (by decide)).2 ?_⟩
  rintro ⟨e, he, -, haction, henabled⟩
  obtain ⟨g, hg, hguard⟩ := Option.map_eq_some_iff.1 (hfalse e he haction)
  rw [henabled g hg] at hguard
  cases hguard

end AutomataNet
