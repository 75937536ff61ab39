import AutomataNet.Proofs.Product
import AutomataNet.Proofs.Spacing
/-!
# Which samples can be expanded

A sample has to be the whole value of an assignment, and a uniform choice between two literal
bounds. `Model.Expandable` says so of every place of a model where a sample can hide, and also that
no destination has more combinations of outcomes than a 64-bit integer can count. These models are
the ones that expansion accepts (`expand_succeeds_iff_expandable`). What it leaves has no sample in
it, so that expanding once more changes nothing.
-/

namespace AutomataNet

/-! ## The number of outcomes -/

namespace Expr

/-- A literal bound, as a double. -/
inductive RealBound : Expr → Float → Prop
  | int (n : Int64) (c : Option String) : RealBound (.literal (.int n) c) n.toFloat
  | real (x : Float) (c : Option String) : RealBound (.literal (.real x) c) x

/-- The value can be assigned, and is expanded into so many outcomes: one if it does not sample. -/
inductive Outcomes (cap : Nat) : Expr → Nat → Prop
  | fixed {e : Expr} : ¬ e.HasSample → Outcomes cap e 1
  | integers {lo hi : Int64} {c c₁ c₂ : Option String} : lo ≤ hi →
      Outcomes cap
        (.distribution "DiscreteUniform" [.literal (.int lo) c₁, .literal (.int hi) c₂] c)
        (min (hi.toInt - lo.toInt + 1).toNat (max cap 1))
  | reals {lo hi : Expr} {x y : Float} {c : Option String} : RealBound lo x → RealBound hi y →
      ¬ x > y →
      Outcomes cap (.distribution "Uniform" [lo, hi] c) (if cap ≤ 1 ∨ x == y then 1 else cap)

theorem real?_eq_some_iff {e : Expr} {x : Float} : e.real? = some x ↔ e.RealBound x := by
  constructor
  · intro h
    unfold real? at h
    split at h
    · obtain rfl := Option.some.inj h
      exact .int _ _
    · obtain rfl := Option.some.inj h
      exact .real _ _
    · contradiction
  · rintro (⟨n, c⟩ | ⟨x, c⟩)
    · rfl
    · rfl

end Expr

theorem length_spacedReals (x y : Float) (cap : Nat) :
    (spacedReals x y cap).length = if cap ≤ 1 ∨ x == y then 1 else cap := by
  unfold spacedReals
  by_cases h : cap ≤ 1 ∨ (x == y) = true
  · rw [if_pos h, if_pos (by simpa using h)]
    rfl
  · rw [if_neg h, if_neg (by simpa using h), List.length_map, List.length_range]

theorem length_spacedIntegers {lo hi : Int} (hle : lo ≤ hi) (cap : Nat) :
    (spacedIntegers lo hi cap).length = min (hi - lo + 1).toNat (max cap 1) := by
  have hlength := (evenlySpaced_spacedIntegers hle cap).length
  omega

namespace Expr

/-- A distribution is expanded exactly if it has a number of outcomes, and into so many. -/
theorem outcomes_distribution_iff {name : String} {args : List Expr} {c : Option String}
    {cap n : Nat} : (Expr.distribution name args c).Outcomes cap n ↔
      ∃ values, AutomataNet.outcomes name args cap = .ok values ∧ values.length = n := by
  constructor
  · intro h
    cases h with
    | fixed h => exact absurd (.sample name args c) h
    | @integers lo hi _ c₁ c₂ hle =>
      refine ⟨(spacedIntegers lo.toInt hi.toInt cap).map fun k => .ofInt (Int64.ofInt k), ?_, ?_⟩
      · refine outcomes_eq_ok_iff.2 ⟨_, _, rfl, .inl ⟨rfl, ?_⟩⟩
        exact integerOutcomes_eq_ok_iff.2 ⟨lo, hi, c₁, c₂, rfl, rfl, hle, rfl⟩
      · rw [List.length_map, length_spacedIntegers (Int64.le_iff_toInt_le.1 hle)]
    | @reals lo hi x y _ hx hy hgt =>
      refine ⟨(spacedReals x y cap).map fun z => .lit (.real z), ?_, ?_⟩
      · refine outcomes_eq_ok_iff.2 ⟨lo, hi, rfl, .inr ⟨rfl, ?_⟩⟩
        exact realOutcomes_eq_ok_iff.2
          ⟨x, y, real?_eq_some_iff.2 hx, real?_eq_some_iff.2 hy, hgt, rfl⟩
      · rw [List.length_map, length_spacedReals]
  · rintro ⟨values, h, rfl⟩
    obtain ⟨lo, hi, rfl, ⟨rfl, h⟩ | ⟨rfl, h⟩⟩ := outcomes_eq_ok_iff.1 h
    · obtain ⟨n, m, c₁, c₂, rfl, rfl, hle, rfl⟩ := integerOutcomes_eq_ok_iff.1 h
      rw [List.length_map, length_spacedIntegers (Int64.le_iff_toInt_le.1 hle)]
      exact .integers hle
    · obtain ⟨x, y, hx, hy, hgt, rfl⟩ := realOutcomes_eq_ok_iff.1 h
      rw [List.length_map, length_spacedReals]
      exact .reals (real?_eq_some_iff.1 hx) (real?_eq_some_iff.1 hy) hgt

theorem outcomes_of_not_isDistribution {e : Expr} (he : e.isDistribution = false) {cap n : Nat} :
    e.Outcomes cap n ↔ ¬ e.HasSample ∧ 1 = n := by
  constructor
  · intro h
    cases h with
    | fixed h => exact ⟨h, rfl⟩
    | integers | reals => cases he
  · rintro ⟨h, rfl⟩
    exact .fixed h

end Expr

/-! ## Assignments -/

namespace Assignment

/-- The number of outcomes that are drawn for the assigned value. -/
def outcomeCount (cap : Nat) (a : Assignment) : Nat := (a.drawn? cap).elim 1 List.length

theorem outcomes_iff {cap n : Nat} {a : Assignment} :
    a.value.Outcomes cap n ↔ a.Drawable cap ∧ a.outcomeCount cap = n := by
  unfold Drawable outcomeCount
  cases hd : a.value.isDistribution with
  | false =>
    rw [Expr.outcomes_of_not_isDistribution hd, drawn?_of_not_isDistribution hd]
    simp
  | true =>
    obtain ⟨name, args, c, hv⟩ := Expr.isDistribution_iff.1 hd
    rw [drawn?_distribution hv, hv, Expr.outcomes_distribution_iff]
    cases outcomes name args cap with
    | error e => simp [Except.toOption, Expr.HasSample.sample]
    | ok values => simp [Except.toOption]

end Assignment

/-- The assigned values have these numbers of outcomes. -/
def Counted (cap : Nat) (as : List Assignment) (counts : List Nat) : Prop :=
  List.Forall₂ (fun a n => a.value.Outcomes cap n) as counts

theorem counted_iff {cap : Nat} {as : List Assignment} {counts : List Nat} :
    Counted cap as counts ↔
      (∀ a ∈ as, a.Drawable cap) ∧ as.map (·.outcomeCount cap) = counts := by
  induction as generalizing counts with
  | nil => simp [Counted, eq_comm]
  | cons a as ih =>
    rw [Counted, List.forall₂_cons_left_iff, List.forall_mem_cons, List.map_cons]
    constructor
    · rintro ⟨n, rest, hn, hrest, rfl⟩
      obtain ⟨hd, rfl⟩ := Assignment.outcomes_iff.1 hn
      obtain ⟨hall, rfl⟩ := ih.1 hrest
      exact ⟨⟨hd, hall⟩, rfl⟩
    · rintro ⟨⟨hd, hall⟩, rfl⟩
      exact ⟨_, _, Assignment.outcomes_iff.2 ⟨hd, rfl⟩, ih.2 ⟨hall, rfl⟩, rfl⟩

/-- Values that are not drawn do not count. -/
theorem prod_outcomeCount (cap : Nat) (as : List Assignment) :
    (as.map (·.outcomeCount cap)).prod = ((draws cap as).map (·.outcomes.length)).prod := by
  induction as with
  | nil => rfl
  | cons a as ih =>
    rw [List.map_cons, List.prod_cons, ih, draws_cons, Assignment.outcomeCount]
    cases a.drawn? cap <;> simp [Draw.shift, Function.comp_def]

/-! ## Counting in machine words -/

/-- The product of some counts in unsigned words of 64 bits, taken as a signed word at the end;
`none` at the first overflow. -/
def wordProduct? (counts : List Nat) : Option Nat := do
  let total ← counts.foldlM (fun total n =>
    if total * n < UInt64.size then some (total * n) else none) 1
  if total ≤ Int64.maxValue.toInt then some total else none

theorem foldlM_product {counts : List Nat} (hpos : ∀ n ∈ counts, 0 < n) {start : Nat}
    (hstart : start < UInt64.size) :
    counts.foldlM (fun total n =>
        if total * n < UInt64.size then some (total * n) else none) start =
      if start * counts.prod < UInt64.size then some (start * counts.prod) else none := by
  induction counts generalizing start with
  | nil => simp [hstart]
  | cons n counts ih =>
    obtain ⟨hn, hpos⟩ := List.forall_mem_cons.1 hpos
    rw [List.foldlM_cons, List.prod_cons, ← Nat.mul_assoc]
    by_cases hlt : start * n < UInt64.size
    · rw [if_pos hlt]
      exact ih hpos hlt
    · -- what comes later does not make the product smaller
      have hle : start * n ≤ start * n * counts.prod :=
        Nat.le_mul_of_pos_right _ (List.prod_pos hpos)
      rw [if_neg hlt, if_neg (by omega)]
      rfl

/-- No count is zero, so the product overflows exactly if it is too large in the end. -/
theorem wordProduct?_eq {counts : List Nat} (hpos : ∀ n ∈ counts, 0 < n) :
    wordProduct? counts = if counts.prod ≤ 2 ^ 63 - 1 then some counts.prod else none := by
  have hmax : Int64.maxValue.toInt = 2 ^ 63 - 1 := by decide
  have hsize : UInt64.size = 2 ^ 64 := rfl
  rw [wordProduct?, foldlM_product hpos (by decide), Nat.one_mul, hmax]
  by_cases hlt : counts.prod < UInt64.size
  · rw [if_pos hlt]
    by_cases hle : counts.prod ≤ 2 ^ 63 - 1
    · rw [if_pos hle]
      exact if_pos (by omega)
    · rw [if_neg hle]
      exact if_neg (by omega)
  · rw [if_neg hlt, if_neg (by omega)]
    rfl

theorem Counted.pos {cap : Nat} {as : List Assignment} {counts : List Nat}
    (h : Counted cap as counts) : ∀ n ∈ counts, 0 < n := by
  obtain ⟨-, rfl⟩ := counted_iff.1 h
  rw [List.forall_mem_map]
  intro a _
  unfold Assignment.outcomeCount
  cases hdrawn : a.drawn? cap with
  | none => exact Nat.one_pos
  | some values =>
    obtain ⟨name, args, c, -, hvalues⟩ := Assignment.drawn?_eq_some_iff.1 hdrawn
    exact List.length_pos_iff.2 (outcomes_literals hvalues).1

/-! ## Destinations -/

namespace Destination

/-- Samples are assigned only, and have no more combinations than can be counted. -/
structure Expandable (cap : Nat) (d : Destination) : Prop where
  weight : ∀ p ∈ d.probability, ¬ p.exp.HasSample
  targets : ∀ a ∈ d.assignments, ¬ a.target.HasSample
  values : ∃ counts, Counted cap d.assignments counts ∧ counts.prod ≤ 2 ^ 63 - 1

/-- Nothing is sampled. -/
structure SampleFree (d : Destination) : Prop where
  weight : ∀ p ∈ d.probability, ¬ p.exp.HasSample
  targets : ∀ a ∈ d.assignments, ¬ a.target.HasSample
  values : ∀ a ∈ d.assignments, ¬ a.value.HasSample

/-- What stands in the place of a destination: itself if it does not sample, and one destination for
each combination of outcomes if it does. -/
structure Spreads (cap : Nat) (d : Destination) (ds : List Destination) : Prop where
  size : ∃ counts, Counted cap d.assignments counts ∧ ds.length = counts.prod
  kept : (∀ a ∈ d.assignments, ¬ a.value.HasSample) → ds = [d]
  frame : ∀ d' ∈ ds, d'.location = d.location ∧ d'.comment = d.comment

theorem any_samples_eq_false_iff {d : Destination} :
    d.probability.any (·.exp.samples) = false ↔ ∀ p ∈ d.probability, ¬ p.exp.HasSample := by
  cases d.probability <;> simp [Expr.samples_eq_false_iff]

theorem not_hasSample_weight {d : Destination} (h : ∀ p ∈ d.probability, ¬ p.exp.HasSample) :
    ¬ d.weight.HasSample := by
  unfold weight
  cases hp : d.probability with
  | none => exact Expr.not_hasSample_lit (.int 1)
  | some p => exact h p hp

/-- If nothing is drawn, there is one combination. -/
theorem combinationCount_of_isNone {sampled : List (Assignment × Option (List Expr))}
    (h : sampled.all (·.2.isNone) = true) : combinationCount sampled = 1 := by
  have hnil : sampled.filterMap (·.2) = [] := by
    rw [List.filterMap_eq_nil_iff]
    intro p hp
    exact Option.isNone_iff_eq_none.1 (List.all_eq_true.1 h p hp)
  rw [combinationCount, hnil]
  rfl

theorem exists_expand_iff {cap : Nat} {d : Destination} :
    (∃ ds, d.expand cap = .ok ds) ↔ d.Expandable cap := by
  have hmax : Int64.maxValue.toInt = 2 ^ 63 - 1 := by decide
  constructor
  · rintro ⟨ds, h⟩
    obtain ⟨hweight, sampled, hsampled, hcases⟩ := expand_eq_ok_iff.1 h
    obtain ⟨hall, rfl⟩ := sampleAll_eq_ok_iff.1 hsampled
    refine ⟨any_samples_eq_false_iff.1 hweight, fun a ha => (hall a ha).1, _,
      counted_iff.2 ⟨fun a ha => (hall a ha).2, rfl⟩, ?_⟩
    rw [prod_outcomeCount, ← combinationCount_eq]
    rcases hcases with ⟨hnone, -⟩ | ⟨-, hcount, -⟩
    · rw [combinationCount_of_isNone hnone]
      decide
    · omega
  · rintro ⟨hweight, htargets, counts, hcounted, hle⟩
    obtain ⟨hdrawable, rfl⟩ := counted_iff.1 hcounted
    have hsampled := sampleAll_eq_ok_iff.2 ⟨fun a ha => ⟨htargets a ha, hdrawable a ha⟩, rfl⟩
    have hweight := any_samples_eq_false_iff.2 hweight
    rw [prod_outcomeCount, ← combinationCount_eq] at hle
    cases hs : (drawAll cap d.assignments).all (·.2.isNone) with
    | true => exact ⟨_, expand_eq_ok_iff.2 ⟨hweight, _, hsampled, .inl ⟨hs, rfl⟩⟩⟩
    | false =>
      exact ⟨_, expand_eq_ok_iff.2 ⟨hweight, _, hsampled, .inr ⟨hs, by omega, rfl⟩⟩⟩

theorem spreads_of_expand {cap : Nat} {d : Destination} {ds : List Destination}
    (h : d.expand cap = .ok ds) : d.Spreads cap ds := by
  obtain ⟨-, -, counts, hcounted, -⟩ := exists_expand_iff.1 ⟨ds, h⟩
  have hkept : (∀ a ∈ d.assignments, ¬ a.value.HasSample) → ds = [d] := by
    intro hfree
    apply expand_of_not_sampling h
    rintro ⟨a, ha, hd⟩
    obtain ⟨name, args, c, hv⟩ := Expr.isDistribution_iff.1 hd
    exact hfree a ha (hv ▸ .sample name args c)
  obtain ⟨-, sampled, hsampled, hcases⟩ := expand_eq_ok_iff.1 h
  obtain ⟨-, rfl⟩ := sampleAll_eq_ok_iff.1 hsampled
  have hcount : counts.prod = combinationCount (drawAll cap d.assignments) := by
    obtain ⟨-, rfl⟩ := counted_iff.1 hcounted
    rw [prod_outcomeCount, combinationCount_eq]
  rcases hcases with ⟨hnone, rfl⟩ | ⟨-, -, rfl⟩
  · refine ⟨⟨counts, hcounted, ?_⟩, hkept, ?_⟩
    · rw [hcount, combinationCount_of_isNone hnone]
      rfl
    · intro d' hd'
      rw [List.mem_singleton.1 hd']
      exact ⟨rfl, rfl⟩
  · refine ⟨⟨counts, hcounted, ?_⟩, hkept, ?_⟩
    · rw [hcount, combinationCount_eq, List.length_map,
        ← (resolves_combinations cap d.assignments).length_eq, length_positions]
    · intro d' hd'
      obtain ⟨assignments, -, rfl⟩ := List.mem_map.1 hd'
      exact ⟨rfl, rfl⟩

/-- A combination holds outcomes in the place of samples. -/
theorem not_hasSample_of_mem_combinations {cap : Nat} {as as' : List Assignment}
    (hall : ∀ a ∈ as, ¬ a.target.HasSample ∧ a.Drawable cap)
    (h : as' ∈ combinations (drawAll cap as)) :
    ∀ x ∈ as', ¬ x.target.HasSample ∧ ¬ x.value.HasSample := by
  intro x hx
  obtain ⟨p, hp, hcases⟩ := mem_combinations h x hx
  obtain ⟨a, ha, rfl⟩ := List.mem_map.1 hp
  obtain ⟨htarget, hdrawable⟩ := hall a ha
  rcases hcases with ⟨hnone, rfl⟩ | ⟨values, hdrawn, value, hvalue, rfl⟩
  · exact ⟨htarget, hdrawable.not_hasSample hnone⟩
  · obtain ⟨name, args, c, -, hvalues⟩ := Assignment.drawn?_eq_some_iff.1 hdrawn
    refine ⟨htarget, ?_⟩
    rcases (outcomes_literals hvalues).2 value hvalue with ⟨n, rfl⟩ | ⟨y, rfl⟩
    · exact Expr.not_hasSample_lit _
    · exact Expr.not_hasSample_lit _

theorem sampleFree_of_expand {cap : Nat} {d d' : Destination} {ds : List Destination}
    (h : d.expand cap = .ok ds) (hd : d' ∈ ds) : d'.SampleFree := by
  obtain ⟨hweight, sampled, hsampled, hcases⟩ := expand_eq_ok_iff.1 h
  obtain ⟨hall, rfl⟩ := sampleAll_eq_ok_iff.1 hsampled
  have hweight := any_samples_eq_false_iff.1 hweight
  rcases hcases with ⟨hnone, rfl⟩ | ⟨-, -, rfl⟩
  · rw [List.mem_singleton.1 hd]
    refine ⟨hweight, fun a ha => (hall a ha).1, fun a ha => ?_⟩
    have hdrawn := List.all_eq_true.1 hnone (a, a.drawn? cap) (List.mem_map.2 ⟨a, ha, rfl⟩)
    exact (hall a ha).2.not_hasSample (Option.isNone_iff_eq_none.1 hdrawn)
  · obtain ⟨assignments, hcombination, rfl⟩ := List.mem_map.1 hd
    have hvalues := not_hasSample_of_mem_combinations hall hcombination
    refine ⟨?_, fun a ha => (hvalues a ha).1, fun a ha => (hvalues a ha).2⟩
    rintro p ⟨⟩
    rw [d.share_eq]
    -- the share is a quotient of the weight and a number
    exact Expr.not_hasSample_binary (not_hasSample_weight hweight) (Expr.not_hasSample_lit _)

theorem SampleFree.expand {d : Destination} (h : d.SampleFree) (cap : Nat) :
    d.expand cap = .ok [d] := by
  have hcounted : Counted cap d.assignments (d.assignments.map fun _ => 1) :=
    List.forall₂_map_right_iff.2 (List.forall₂_same.2 fun a ha => .fixed (h.values a ha))
  obtain ⟨ds, hds⟩ := exists_expand_iff.2 ⟨h.weight, h.targets, _, hcounted, by simp⟩
  rw [hds, (spreads_of_expand hds).kept h.values]

end Destination

/-! ## Edges -/

theorem exists_forall₂_iff {α β : Type} {R : α → β → Prop} {as : List α} :
    (∃ bs, List.Forall₂ R as bs) ↔ ∀ a ∈ as, ∃ b, R a b := by
  induction as with
  | nil => exact ⟨fun _ => List.forall_mem_nil _, fun _ => ⟨[], .nil⟩⟩
  | cons a as ih =>
    rw [List.forall_mem_cons, ← ih]
    constructor
    · rintro ⟨_, _ | ⟨hb, hbs⟩⟩
      exact ⟨⟨_, hb⟩, ⟨_, hbs⟩⟩
    · rintro ⟨⟨b, hb⟩, ⟨bs, hbs⟩⟩
      exact ⟨b :: bs, .cons hb hbs⟩

namespace Edge

/-- Samples are assigned only, in all destinations. -/
structure Expandable (cap : Nat) (e : Edge) : Prop where
  guard : ∀ g ∈ e.guard, ¬ g.exp.HasSample
  destinations : ∀ d ∈ e.destinations, d.Expandable cap

/-- Nothing is sampled. -/
structure SampleFree (e : Edge) : Prop where
  guard : ∀ g ∈ e.guard, ¬ g.exp.HasSample
  destinations : ∀ d ∈ e.destinations, d.SampleFree

/-- Each destination spreads in its place, and nothing else changes. -/
def Spreads (cap : Nat) (e e' : Edge) : Prop :=
  ∃ groups, List.Forall₂ (Destination.Spreads cap) e.destinations groups ∧
    e' = { e with destinations := groups.flatten }

theorem any_samples_iff {e : Edge} :
    e.guardExp?.any (·.samples) = true ↔ ¬ ∀ g ∈ e.guard, ¬ g.exp.HasSample := by
  unfold guardExp?
  cases e.guard <;> simp [Expr.samples_iff]

theorem succeeds_expand {cap : Nat} {e : Edge} : (e.expand cap).Succeeds ↔ e.Expandable cap := by
  have hdestinations : (∃ groups, expandDestinations cap e.destinations = .ok groups) ↔
      ∀ d ∈ e.destinations, d.Expandable cap := by
    simp only [expandDestinations_eq_ok_iff, exists_forall₂_iff, Destination.exists_expand_iff]
  unfold expand
  by_cases hguard : ∀ g ∈ e.guard, ¬ g.exp.HasSample
  · rw [if_neg (by rw [any_samples_iff]; exact not_not.2 hguard)]
    constructor
    · intro h
      cases hgroups : expandDestinations cap e.destinations with
      | error err =>
        rw [hgroups] at h
        obtain ⟨n, hn⟩ := h
        cases hn
      | ok groups => exact ⟨hguard, hdestinations.1 ⟨groups, hgroups⟩⟩
    · intro h
      obtain ⟨groups, hgroups⟩ := hdestinations.2 h.destinations
      rw [hgroups]
      exact ⟨_, rfl⟩
  · rw [if_pos (any_samples_iff.2 hguard)]
    constructor
    · rintro ⟨n, hn⟩
      cases hn
    · intro h
      exact absurd h.guard hguard

theorem spreads_expand {cap : Nat} {e : Edge} (h : (e.expand cap).Succeeds) :
    e.Spreads cap (e.expand cap).state := by
  obtain ⟨groups, hgroups, hstate⟩ := expand_of_succeeds h
  exact ⟨groups, hgroups.imp fun _ _ hd => Destination.spreads_of_expand hd, hstate⟩

theorem sampleFree_expand {cap : Nat} {e : Edge} (h : (e.expand cap).Succeeds) :
    (e.expand cap).state.SampleFree := by
  have hguard := (succeeds_expand.1 h).guard
  constructor
  · obtain ⟨destinations, hstate⟩ := e.state_expand cap
    rw [hstate]
    exact hguard
  · intro d' hd'
    obtain ⟨d, -, ds, hexpand, hmem⟩ := mem_destinations_expand h hd'
    exact Destination.sampleFree_of_expand hexpand hmem

theorem SampleFree.expand {e : Edge} (h : e.SampleFree) (cap : Nat) :
    (e.expand cap).Succeeds ∧ (e.expand cap).state = e := by
  have hgroups : expandDestinations cap e.destinations = .ok (e.destinations.map ([·])) := by
    rw [expandDestinations_eq_ok_iff, List.forall₂_map_right_iff, List.forall₂_same]
    intro d hd
    exact (h.destinations d hd).expand cap
  have hrun : e.expand cap = .ok { e with destinations := (e.destinations.map ([·])).flatten }
      ((e.destinations.map ([·])).countP (1 < ·.length)) := by
    unfold Edge.expand
    rw [if_neg (by rw [any_samples_iff]; exact not_not.2 h.guard), hgroups]
  rw [hrun]
  refine ⟨⟨_, rfl⟩, ?_⟩
  change { e with destinations := (e.destinations.map ([·])).flatten } = e
  rw [← List.flatMap_def, List.flatMap_singleton']

end Edge

/-! ## Models -/

/-- The destinations of all edges spread, and nothing else changes. -/
def Automaton.Spreads (cap : Nat) (a a' : Automaton) : Prop :=
  ∃ edges, List.Forall₂ (Edge.Spreads cap) a.edges edges ∧ a' = { a with edges }

namespace Model

/-- Samples are used in the supported way everywhere. -/
def Expandable (cap : Nat) (m : Model) : Prop :=
  ∀ a ∈ m.automata, ∀ e ∈ a.edges, e.Expandable cap

/-- Nothing is sampled. -/
def SampleFree (m : Model) : Prop := ∀ a ∈ m.automata, ∀ e ∈ a.edges, e.SampleFree

/-- The edges of all automata spread, and nothing else changes. -/
def Spreads (cap : Nat) (m m' : Model) : Prop :=
  ∃ automata, List.Forall₂ (Automaton.Spreads cap) m.automata automata ∧ m' = { m with automata }

theorem succeeds_expand_iff {cap : Nat} {m : Model} :
    (m.expand cap).Succeeds ↔ m.Expandable cap := by
  simp only [succeeds_expand, Automaton.succeeds_expand, Edge.succeeds_expand, Expandable]

theorem spreads_expand {cap : Nat} {m : Model} (h : (m.expand cap).Succeeds) :
    m.Spreads cap (m.expand cap).state := by
  refine ⟨_, ?_, state_expand h⟩
  rw [List.forall₂_map_right_iff, List.forall₂_same]
  intro a ha
  have ha := succeeds_expand.1 h a ha
  refine ⟨_, ?_, Automaton.state_expand ha⟩
  rw [List.forall₂_map_right_iff, List.forall₂_same]
  intro e he
  exact Edge.spreads_expand (Automaton.succeeds_expand.1 ha e he)

theorem sampleFree_expand {cap : Nat} {m : Model} (h : (m.expand cap).Succeeds) :
    (m.expand cap).state.SampleFree := by
  intro a' ha'
  rw [state_expand h] at ha'
  obtain ⟨a, ha, rfl⟩ := List.mem_map.1 ha'
  have ha := succeeds_expand.1 h a ha
  intro e' he'
  rw [Automaton.state_expand ha] at he'
  obtain ⟨e, he, rfl⟩ := List.mem_map.1 he'
  exact Edge.sampleFree_expand (Automaton.succeeds_expand.1 ha e he)

theorem SampleFree.expand {m : Model} (h : m.SampleFree) (cap : Nat) :
    (m.expand cap).Succeeds ∧ (m.expand cap).state = m := by
  have hautomaton : ∀ a ∈ m.automata, (a.expand cap).Succeeds := by
    intro a ha
    exact Automaton.succeeds_expand.2 fun e he => ((h a ha e he).expand cap).1
  have hsucceeds := succeeds_expand.2 hautomaton
  refine ⟨hsucceeds, ?_⟩
  have hkept : ∀ a ∈ m.automata, (a.expand cap).state = a := by
    intro a ha
    rw [Automaton.state_expand (hautomaton a ha),
      List.map_congr_left fun e he => ((h a ha e he).expand cap).2, List.map_id']
  rw [state_expand hsucceeds, List.map_congr_left hkept, List.map_id']

end Model

/-- A model can be expanded exactly if samples are used in the supported way everywhere, and have no
more combinations than a 64-bit integer can count. Destinations then spread in their places and
nothing else changes, no sample is left, and expanding once more changes nothing. The combinations
can be counted in machine words. -/
theorem expand_succeeds_iff_expandable (m : Model) (cap : Nat) :
    ((m.expand cap).Succeeds ↔ m.Expandable cap) ∧
      ((m.expand cap).Succeeds →
        m.Spreads cap (m.expand cap).state ∧ (m.expand cap).state.SampleFree ∧
          ∀ cap', ((m.expand cap).state.expand cap').Succeeds ∧
            ((m.expand cap).state.expand cap').state = (m.expand cap).state) ∧
      ∀ as counts, Counted cap as counts →
        wordProduct? counts = if counts.prod ≤ 2 ^ 63 - 1 then some counts.prod else none := by
  refine ⟨Model.succeeds_expand_iff, fun h => ?_, fun as counts h => wordProduct?_eq h.pos⟩
  have hfree := Model.sampleFree_expand h
  exact ⟨Model.spreads_expand h, hfree, fun cap' => hfree.expand cap'⟩

/-- A die of which two faces remain, and an angle between two reals. The other destination keeps
what was thrown before. -/
def casino : Model where
  name := "casino"
  automata := [
    { Automaton.single "table" "open" with
      edges := [
        { location := "open"
          guard := some { exp := .var "staked" }
          destinations := [
            { location := "open", assignments := [⟨.var "die", .var "die", none⟩] },
            { location := "open"
              assignments := [
                ⟨.var "die", .distribution "DiscreteUniform" [.ofInt 1, .ofInt 6] none, none⟩,
                ⟨.var "angle",
                  .distribution "Uniform" [.lit (.real 0.5), .lit (.real 1.5)] none, none⟩] }] }] }]

theorem expand_succeeds_iff_expandable_casino :
    (casino.expand 2).Succeeds ∧ casino.Expandable 2 ∧
      casino.Spreads 2 (casino.expand 2).state ∧ (casino.expand 2).state.SampleFree ∧
      (casino.expand 2).state.automata.map (·.edges.map (·.destinations.length)) = [[5]] ∧
      ((casino.expand 2).state.expand 7).state = (casino.expand 2).state := by
  have hrun : (casino.expand 2).Succeeds := ⟨(), by decide +kernel⟩
  obtain ⟨hiff, hleft, -⟩ := expand_succeeds_iff_expandable casino 2
  obtain ⟨hspreads, hfree, hagain⟩ := hleft hrun
  exact ⟨hrun, hiff.1 hrun, hspreads, hfree, by decide +kernel, (hagain 7).2⟩

end AutomataNet
