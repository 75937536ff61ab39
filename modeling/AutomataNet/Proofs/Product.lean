import AutomataNet.Proofs.Expansion
/-!
# Expansion is a product

A destination with samples is replaced by one destination for each way to choose an outcome of every
sample. `positions` lists these choices, and `resolves_combinations` ties the choices to the
destinations one by one. All get the same share of the weight, so that no weight is lost
(`Weighing.sum_expand`), and integer ranges within the cap are covered value by value.
-/

namespace AutomataNet

/-! ## Choosing positions -/

/-- All ways to choose a position in each of some lists, given their lengths. -/
def positions : List Nat → List (List Nat)
  | [] => [[]]
  | n :: ns => (List.range n).flatMap fun k => (positions ns).map (k :: ·)

theorem mem_positions {ns pick : List Nat} :
    pick ∈ positions ns ↔ List.Forall₂ (· < ·) pick ns := by
  induction ns generalizing pick with
  | nil => simp [positions]
  | cons n ns ih =>
    simp only [positions, List.mem_flatMap, List.mem_range, List.mem_map, ih,
      List.forall₂_cons_right_iff]
    constructor
    · rintro ⟨k, hk, rest, hrest, rfl⟩
      exact ⟨k, rest, hk, hrest, rfl⟩
    · rintro ⟨k, rest, hk, hrest, rfl⟩
      exact ⟨k, hk, rest, hrest, rfl⟩

theorem length_positions (ns : List Nat) : (positions ns).length = ns.prod := by
  induction ns with
  | nil => rfl
  | cons n ns ih => simp [positions, ih]

theorem positions_pairwise (ns : List Nat) : (positions ns).Pairwise (List.Lex (· < ·)) := by
  induction ns with
  | nil => exact List.pairwise_singleton _ _
  | cons n ns ih =>
    rw [positions, List.pairwise_flatMap]
    constructor
    · intro k _
      exact List.pairwise_map.2 (ih.imp fun h => .cons h)
    · -- choices that start differently are ordered by their start
      refine List.pairwise_lt_range.imp fun {i j} hij x hx y hy => ?_
      obtain ⟨x, -, rfl⟩ := List.mem_map.1 hx
      obtain ⟨y, -, rfl⟩ := List.mem_map.1 hy
      exact .rel hij

/-! ## Samples of a destination -/

def Expr.isDistribution : Expr → Bool
  | .distribution _ _ _ => true
  | _ => false

/-- A sample among the assignments of a destination. -/
structure Draw where
  position : Nat
  outcomes : List Expr

/-- The outcomes of the assigned value, if it is a sample that can be expanded. -/
def Assignment.drawn? (cap : Nat) (a : Assignment) : Option (List Expr) :=
  match a.value with
  | .distribution name args _ => (outcomes name args cap).toOption
  | _ => none

/-- Assignments with what they draw. -/
def drawAll (cap : Nat) (as : List Assignment) : List (Assignment × Option (List Expr)) :=
  as.map fun a => (a, a.drawn? cap)

/-- The samples among some assignments, in order. -/
def draws (cap : Nat) (as : List Assignment) : List Draw :=
  as.zipIdx.filterMap fun p => (p.1.drawn? cap).map (⟨p.2, ·⟩)

theorem Assignment.drawn?_eq_some_iff {cap : Nat} {a : Assignment} {values : List Expr} :
    a.drawn? cap = some values ↔ ∃ name args c, a.value = .distribution name args c ∧
      outcomes name args cap = .ok values := by
  unfold drawn?
  cases a.value <;> simp [Except.toOption_eq_some_iff]

theorem mem_draws {cap : Nat} {as : List Assignment} {w : Draw} :
    w ∈ draws cap as ↔ ∃ a, as[w.position]? = some a ∧ a.drawn? cap = some w.outcomes := by
  simp only [draws, List.mem_filterMap, Prod.exists, List.mk_mem_zipIdx_iff_getElem?,
    Option.map_eq_some_iff]
  constructor
  · rintro ⟨a, i, ha, values, hv, rfl⟩
    exact ⟨a, ha, hv⟩
  · rintro ⟨a, ha, hv⟩
    exact ⟨a, w.position, ha, w.outcomes, hv, rfl⟩

/-- The same sample after one more assignment. -/
def Draw.shift (w : Draw) : Draw := { w with position := w.position + 1 }

theorem draws_cons (cap : Nat) (a : Assignment) (as : List Assignment) :
    draws cap (a :: as) =
      ((a.drawn? cap).map (⟨0, ·⟩)).toList ++ (draws cap as).map Draw.shift := by
  have hrest : (as.zipIdx 1).filterMap (fun p => (p.1.drawn? cap).map (Draw.mk p.2)) =
      (draws cap as).map Draw.shift := by
    rw [List.zipIdx_succ, List.filterMap_map, draws, List.map_filterMap]
    apply List.filterMap_congr
    intro p _
    rw [Option.map_map]
    rfl
  rw [draws, List.zipIdx_cons, List.filterMap_cons, hrest]
  cases a.drawn? cap <;> rfl

theorem draws_sorted (cap : Nat) (as : List Assignment) :
    (draws cap as).Pairwise (·.position < ·.position) := by
  induction as with
  | nil => exact List.Pairwise.nil
  | cons a as ih =>
    have hrest : ((draws cap as).map Draw.shift).Pairwise (·.position < ·.position) :=
      List.pairwise_map.2 (ih.imp fun h => Nat.succ_lt_succ h)
    rw [draws_cons]
    cases a.drawn? cap with
    | none => exact hrest
    | some values =>
      refine List.pairwise_cons.2 ⟨fun w hw => ?_, hrest⟩
      obtain ⟨v, -, rfl⟩ := List.mem_map.1 hw
      exact Nat.succ_pos _

/-! ## Combinations -/

/-- The assignments when each sample takes the outcome at its chosen position: those that do not
sample are kept, the others change their value only. -/
structure Resolves (ws : List Draw) (as : List Assignment) (pick : List Nat)
    (as' : List Assignment) : Prop where
  kept : ∀ i, (∀ w ∈ ws, w.position ≠ i) → as'[i]? = as[i]?
  drawn : ∀ (j k : Nat) (w : Draw), ws[j]? = some w → pick[j]? = some k →
    ∃ a value, as[w.position]? = some a ∧ w.outcomes[k]? = some value ∧
      as'[w.position]? = some { a with value }

namespace Resolves

variable {ws : List Draw} {as as' : List Assignment} {pick : List Nat}

/-- One more assignment, which does not sample. -/
theorem cons (h : Resolves ws as pick as') (a : Assignment) :
    Resolves (ws.map Draw.shift) (a :: as) pick (a :: as') where
  kept := by
    intro i hi
    cases i with
    | zero => rfl
    | succ i =>
      refine h.kept i fun w hw hpos => ?_
      exact hi w.shift (List.mem_map_of_mem hw) (congrArg Nat.succ hpos)
  drawn := by
    intro j k w hw hk
    rw [List.getElem?_map] at hw
    obtain ⟨v, hv, rfl⟩ := Option.map_eq_some_iff.1 hw
    exact h.drawn j k v hv hk

/-- One more sample. -/
theorem cons_draw (h : Resolves ws as pick as') (a : Assignment) {values : List Expr} {k : Nat}
    {value : Expr} (hk : values[k]? = some value) :
    Resolves (⟨0, values⟩ :: ws.map Draw.shift) (a :: as) (k :: pick)
      ({ a with value } :: as') where
  kept := by
    intro i hi
    obtain ⟨hzero, hrest⟩ := List.forall_mem_cons.1 hi
    cases i with
    | zero => exact absurd rfl hzero
    | succ i => exact (h.cons a).kept (i + 1) hrest
  drawn := by
    intro j l w hw hl
    cases j with
    | zero =>
      obtain rfl := Option.some.inj hw
      obtain rfl := Option.some.inj hl
      exact ⟨a, value, rfl, hk, rfl⟩
    | succ j =>
      -- the position of a later sample is not the first one
      rw [List.getElem?_cons_succ, List.getElem?_map] at hw
      obtain ⟨v, hv, rfl⟩ := Option.map_eq_some_iff.1 hw
      exact h.drawn j l v hv hl

end Resolves

theorem forall₂_range_getElem? {α : Type} (l : List α) :
    List.Forall₂ (fun (k : Nat) x => l[k]? = some x) (List.range l.length) l := by
  rw [List.forall₂_iff_get]
  exact ⟨by simp, fun i hi hi' => by simp⟩

/-- The combinations are the choices of positions, one by one and in the same order. -/
theorem resolves_combinations (cap : Nat) (as : List Assignment) :
    List.Forall₂ (Resolves (draws cap as) as)
      (positions ((draws cap as).map (·.outcomes.length)))
      (combinations (drawAll cap as)) := by
  induction as with
  | nil =>
    refine List.forall₂_cons.2 ⟨⟨fun i _ => rfl, ?_⟩, List.Forall₂.nil⟩
    intro j k w hw
    cases hw
  | cons a as ih =>
    have hlengths : ((draws cap as).map Draw.shift).map (·.outcomes.length) =
        (draws cap as).map (·.outcomes.length) := by
      simp [Draw.shift, Function.comp_def]
    rw [drawAll, List.map_cons, ← drawAll, draws_cons]
    cases ha : a.drawn? cap with
    | none =>
      -- no new choice, and the assignment stands before each combination
      simp only [Option.map_none, Option.toList_none, List.nil_append, hlengths, combinations,
        List.forall₂_map_right_iff]
      exact ih.imp fun pick as' h => h.cons a
    | some values =>
      -- both lists go through the outcomes first, and then through the choices for the rest
      simp only [Option.map_some, Option.toList_some, List.singleton_append, List.map_cons,
        hlengths, combinations, positions]
      refine List.rel_flatMap (forall₂_range_getElem? values) fun k value hk => ?_
      rw [List.forall₂_map_left_iff, List.forall₂_map_right_iff]
      exact ih.imp fun pick as' h => h.cons_draw a hk

/-- An assignment of a combination has its own value, or an outcome of what it samples. -/
theorem mem_combinations {sampled : List (Assignment × Option (List Expr))} {as : List Assignment}
    (h : as ∈ combinations sampled) :
    ∀ x ∈ as, ∃ p ∈ sampled, (p.2 = none ∧ x = p.1) ∨
      ∃ values ∈ p.2, ∃ value ∈ values, x = { p.1 with value } := by
  induction sampled generalizing as with
  | nil =>
    rw [combinations, List.mem_singleton] at h
    rw [h]
    exact List.forall_mem_nil _
  | cons p sampled ih =>
    obtain ⟨a, o⟩ := p
    have hrest : ∀ tail ∈ combinations sampled, ∀ x ∈ tail, ∃ p ∈ (a, o) :: sampled,
        (p.2 = none ∧ x = p.1) ∨ ∃ values ∈ p.2, ∃ value ∈ values, x = { p.1 with value } := by
      intro tail htail x hx
      obtain ⟨p, hp, hcases⟩ := ih htail x hx
      exact ⟨p, List.mem_cons_of_mem _ hp, hcases⟩
    cases o with
    | none =>
      obtain ⟨tail, htail, rfl⟩ := List.mem_map.1 h
      exact List.forall_mem_cons.2 ⟨⟨_, List.mem_cons_self, .inl ⟨rfl, rfl⟩⟩, hrest tail htail⟩
    | some values =>
      obtain ⟨value, hvalue, h⟩ := List.mem_flatMap.1 h
      obtain ⟨tail, htail, rfl⟩ := List.mem_map.1 h
      exact List.forall_mem_cons.2
        ⟨⟨_, List.mem_cons_self, .inr ⟨values, rfl, value, hvalue, rfl⟩⟩, hrest tail htail⟩

theorem combinationCount_eq (cap : Nat) (as : List Assignment) :
    combinationCount (drawAll cap as) =
      ((draws cap as).map (·.outcomes.length)).prod := by
  have hfold : ∀ (ls : List (List Expr)) (n : Nat),
      ls.foldl (fun n values => n * values.length) n = n * (ls.map List.length).prod := by
    intro ls
    induction ls with
    | nil => simp
    | cons l ls ih => intro n; simp [ih, Nat.mul_assoc]
  have hlists : (drawAll cap as).filterMap (·.2) = (draws cap as).map (·.outcomes) := by
    induction as with
    | nil => rfl
    | cons a as ih =>
      rw [draws_cons, drawAll, List.map_cons, ← drawAll, List.filterMap_cons, ih]
      cases a.drawn? cap <;> simp [Draw.shift, Function.comp_def]
  rw [combinationCount, hfold, hlists, Nat.one_mul, List.map_map]
  rfl

/-! ## Outcomes -/

theorem spacedIntegers_ne_nil (lo hi : Int) (cap : Nat) : spacedIntegers lo hi cap ≠ [] := by
  unfold spacedIntegers
  dsimp only
  split
  · simp
  · split
    · simp
    · simp

theorem spacedReals_ne_nil (lo hi : Float) (cap : Nat) : spacedReals lo hi cap ≠ [] := by
  unfold spacedReals
  split
  · simp
  · rename_i hcap
    simp only [Bool.or_eq_true, decide_eq_true_eq, not_or, not_le] at hcap
    simp
    omega

theorem integerOutcomes_eq_ok_iff {name : String} {cap : Nat} {lo hi : Expr} {values : List Expr} :
    integerOutcomes name cap lo hi = .ok values ↔
      ∃ (n m : Int64) (c c' : Option String), lo = .literal (.int n) c ∧ hi = .literal (.int m) c' ∧
        n ≤ m ∧
        values = (spacedIntegers n.toInt m.toInt cap).map fun k => .ofInt (Int64.ofInt k) := by
  constructor
  · intro h
    unfold integerOutcomes at h
    split at h
    · split at h
      · contradiction
      · rename_i n c m c' hlt
        obtain rfl := Except.ok.inj h
        exact ⟨n, m, c, c', rfl, rfl, Int64.not_lt.1 hlt, rfl⟩
    · contradiction
  · rintro ⟨n, m, c, c', rfl, rfl, hle, rfl⟩
    exact if_neg (Int64.not_lt.2 hle)

theorem realOutcomes_eq_ok_iff {name : String} {cap : Nat} {lo hi : Expr} {values : List Expr} :
    realOutcomes name cap lo hi = .ok values ↔
      ∃ x y : Float, lo.real? = some x ∧ hi.real? = some y ∧ ¬ x > y ∧
        values = (spacedReals x y cap).map fun z => .lit (.real z) := by
  unfold realOutcomes
  constructor
  · intro h
    split at h
    · rename_i x y hx hy
      split at h
      · contradiction
      · rename_i hgt
        obtain rfl := Except.ok.inj h
        exact ⟨x, y, hx, hy, hgt, rfl⟩
    · contradiction
  · rintro ⟨x, y, hx, hy, hgt, rfl⟩
    simp only [hx, hy, if_neg hgt]

/-- A distribution that can be expanded is a uniform choice between two bounds in order. -/
theorem outcomes_eq_ok_iff {name : String} {args : List Expr} {cap : Nat} {values : List Expr} :
    outcomes name args cap = .ok values ↔ ∃ lo hi, args = [lo, hi] ∧
      (name = "DiscreteUniform" ∧ integerOutcomes name cap lo hi = .ok values ∨
        name = "Uniform" ∧ realOutcomes name cap lo hi = .ok values) := by
  unfold outcomes
  constructor
  · intro h
    split at h
    · rename_i lo hi
      refine ⟨lo, hi, rfl, ?_⟩
      split at h
      · rename_i hname
        exact .inl ⟨hname, h⟩
      · split at h
        · rename_i hname
          exact .inr ⟨hname, h⟩
        · contradiction
    · contradiction
  · rintro ⟨lo, hi, rfl, ⟨rfl, h⟩ | ⟨rfl, h⟩⟩
    · exact (if_pos rfl).trans h
    · exact ((if_neg (by decide)).trans (if_pos rfl)).trans h

/-- The outcomes are numbers, and there is at least one. -/
theorem outcomes_literals {name : String} {args : List Expr} {cap : Nat} {values : List Expr}
    (h : outcomes name args cap = .ok values) :
    values ≠ [] ∧ ∀ v ∈ values, (∃ n, v = .lit (.int n)) ∨ ∃ x, v = .lit (.real x) := by
  obtain ⟨lo, hi, -, ⟨-, h⟩ | ⟨-, h⟩⟩ := outcomes_eq_ok_iff.1 h
  · obtain ⟨n, m, -, -, -, -, -, rfl⟩ := integerOutcomes_eq_ok_iff.1 h
    exact ⟨by simpa using spacedIntegers_ne_nil _ _ cap,
      List.forall_mem_map.2 fun k _ => .inl ⟨Int64.ofInt k, rfl⟩⟩
  · obtain ⟨x, y, -, -, -, rfl⟩ := realOutcomes_eq_ok_iff.1 h
    exact ⟨by simpa using spacedReals_ne_nil _ _ cap,
      List.forall_mem_map.2 fun z _ => .inr ⟨z, rfl⟩⟩

theorem Expr.isDistribution_iff {e : Expr} :
    e.isDistribution = true ↔ ∃ name args c, e = .distribution name args c := by
  cases e <;> simp [isDistribution]

namespace Assignment

/-- If the assigned value samples at all, it is drawn as a whole. -/
def Drawable (cap : Nat) (a : Assignment) : Prop :=
  a.value.HasSample → (a.drawn? cap).isSome = true

theorem Drawable.not_hasSample {cap : Nat} {a : Assignment} (h : a.Drawable cap)
    (hnone : a.drawn? cap = none) : ¬ a.value.HasSample := by
  intro hs
  have hsome := h hs
  rw [hnone] at hsome
  contradiction

theorem drawn?_distribution {cap : Nat} {a : Assignment} {name : String} {args : List Expr}
    {c : Option String} (h : a.value = .distribution name args c) :
    a.drawn? cap = (outcomes name args cap).toOption := by
  unfold drawn?
  rw [h]

theorem drawn?_of_not_isDistribution {cap : Nat} {a : Assignment}
    (h : a.value.isDistribution = false) : a.drawn? cap = none := by
  unfold drawn?
  split
  · rename_i hv
    rw [hv] at h
    cases h
  · rfl

/-- The checks of an assignment. -/
theorem outcomes?_eq_ok_iff {cap : Nat} {a : Assignment} {o : Option (List Expr)} :
    a.outcomes? cap = .ok o ↔ ¬ a.target.HasSample ∧ a.Drawable cap ∧ a.drawn? cap = o := by
  unfold outcomes? Drawable
  by_cases ht : a.target.HasSample
  · rw [if_pos ((Expr.samples_iff _).2 ht)]
    simp [ht]
  · rw [if_neg (mt (Expr.samples_iff _).1 ht), and_iff_right ht]
    split
    · rename_i name args c hv
      rw [drawn?_distribution hv, hv]
      cases outcomes name args cap with
      | error e => simp [Except.toOption, Expr.HasSample.sample, Functor.map, Except.map]
      | ok values => simp [Except.toOption, Functor.map, Except.map]
    · rename_i hv
      have hd : a.value.isDistribution = false := by
        rw [← Bool.not_eq_true, Expr.isDistribution_iff]
        rintro ⟨name, args, c, h⟩
        exact hv name args c h
      rw [drawn?_of_not_isDistribution hd]
      by_cases hs : a.value.HasSample
      · rw [if_pos ((Expr.samples_iff _).2 hs)]
        simp [hs]
      · rw [if_neg (mt (Expr.samples_iff _).1 hs)]
        simp [hs]

end Assignment

/-- Where nothing fails, each assignment comes with what it draws. -/
theorem sampleAll_eq_ok_iff {cap : Nat} {as : List Assignment}
    {sampled : List (Assignment × Option (List Expr))} :
    sampleAll cap as = .ok sampled ↔
      (∀ a ∈ as, ¬ a.target.HasSample ∧ a.Drawable cap) ∧ drawAll cap as = sampled := by
  induction as generalizing sampled with
  | nil => simp [sampleAll, drawAll]
  | cons a as ih =>
    simp only [sampleAll, Except.bind_eq_ok_iff, Assignment.outcomes?_eq_ok_iff, ih,
      List.forall_mem_cons, Except.ok.injEq]
    constructor
    · rintro ⟨o, ⟨ht, hd, rfl⟩, rest, ⟨hrest, rfl⟩, rfl⟩
      exact ⟨⟨⟨ht, hd⟩, hrest⟩, rfl⟩
    · rintro ⟨⟨⟨ht, hd⟩, hrest⟩, rfl⟩
      exact ⟨_, ⟨ht, hd, rfl⟩, _, ⟨hrest, rfl⟩, rfl⟩

theorem prod_draws_pos (cap : Nat) (as : List Assignment) :
    0 < ((draws cap as).map (·.outcomes.length)).prod := by
  apply List.prod_pos
  intro n hn
  obtain ⟨w, hw, rfl⟩ := List.mem_map.1 hn
  obtain ⟨a, -, hdrawn⟩ := mem_draws.1 hw
  obtain ⟨name, args, c, -, ho⟩ := Assignment.drawn?_eq_some_iff.1 hdrawn
  exact List.length_pos_iff.2 (outcomes_literals ho).1

/-! ## Destinations -/

namespace Destination

/-- The weight as an expression. -/
def weight (d : Destination) : Expr :=
  match d.probability with
  | some p => p.exp
  | none => .ofInt 1

/-- What `ds` is when `d` is replaced by the product of its samples `ws`. -/
structure IsProduct (cap : Nat) (d : Destination) (ws : List Draw) (ds : List Destination) :
    Prop where
  /-- The samples are those of the assignments whose value is a distribution. -/
  draws : ∀ w, w ∈ ws ↔ ∃ a name args c, d.assignments[w.position]? = some a ∧
    a.value = .distribution name args c ∧ outcomes name args cap = .ok w.outcomes
  complete : ∀ (i : Nat) (a : Assignment), d.assignments[i]? = some a →
    a.value.isDistribution = true → ∃ w ∈ ws, w.position = i
  sorted : ws.Pairwise (·.position < ·.position)
  size : ds.length = (ws.map (·.outcomes.length)).prod
  /-- One destination for each choice of positions, in lexicographic order. -/
  resolved : ∃ picks : List (List Nat),
    (∀ pick, pick ∈ picks ↔ List.Forall₂ (fun k w => k < w.outcomes.length) pick ws) ∧
    picks.Pairwise (List.Lex (· < ·)) ∧
    List.Forall₂ (fun pick d' => Resolves ws d.assignments pick d'.assignments) picks ds
  frame : ∀ d' ∈ ds, d'.location = d.location ∧ d'.comment = d.comment
  /-- The weight is divided by the number of destinations. -/
  shared : ∃ n : Int64, 0 < n.toInt ∧ n.toInt = ds.length ∧ ∀ d' ∈ ds, d'.probability =
    some { exp := .binary .divide d.weight (.ofInt n), comment := d.probability.bind (·.comment) }

theorem share_eq (d : Destination) (count : Nat) :
    Probability.share d.probability count =
      { exp := .binary .divide d.weight (.ofInt (Int64.ofNat count))
        comment := d.probability.bind (·.comment) } := by
  unfold Probability.share weight
  cases d.probability <;> rfl

section

variable {cap : Nat} {d : Destination} {ds : List Destination} (h : d.expand cap = .ok ds)

include h

/-- Every sample has outcomes, and if there is one, the destinations are the combinations. -/
theorem expand_of_samples :
    (∀ a ∈ d.assignments, a.value.isDistribution = true → (a.drawn? cap).isSome = true) ∧
    ((∃ a ∈ d.assignments, a.value.isDistribution = true) →
      ∃ n : Int64, n.toInt = combinationCount (drawAll cap d.assignments) ∧
        ds = (combinations (drawAll cap d.assignments)).map fun assignments =>
          { d with
            probability := some
              { exp := .binary .divide d.weight (.ofInt n)
                comment := d.probability.bind (·.comment) }
            assignments }) := by
  obtain ⟨-, sampled, hsampled, hcases⟩ := expand_eq_ok_iff.1 h
  obtain ⟨hall, rfl⟩ := sampleAll_eq_ok_iff.1 hsampled
  have hdrawn : ∀ a ∈ d.assignments, a.value.isDistribution = true →
      (a.drawn? cap).isSome = true := by
    intro a ha hd
    obtain ⟨name, args, c, hv⟩ := Expr.isDistribution_iff.1 hd
    exact (hall a ha).2 (hv ▸ .sample name args c)
  refine ⟨hdrawn, ?_⟩
  rintro ⟨a, ha, hsample⟩
  rcases hcases with ⟨hnone, -⟩ | ⟨-, hcount, rfl⟩
  · -- the sample has outcomes
    have hsome := hdrawn a ha hsample
    have hmem : (a, a.drawn? cap) ∈ drawAll cap d.assignments := List.mem_map.2 ⟨a, ha, rfl⟩
    have hall : (a.drawn? cap).isNone = true := List.all_eq_true.1 hnone _ hmem
    rw [Option.isNone_iff_eq_none.1 hall] at hsome
    contradiction
  · refine ⟨Int64.ofNat (combinationCount (drawAll cap d.assignments)), ?_, ?_⟩
    · have hmax : Int64.maxValue.toInt = 2 ^ 63 - 1 := by decide
      exact Int64.toInt_ofNat_of_lt (by omega)
    · rw [d.share_eq]

theorem expand_of_not_sampling (hs : ¬∃ a ∈ d.assignments, a.value.isDistribution = true) :
    ds = [d] := by
  obtain ⟨-, sampled, hsampled, hcases⟩ := expand_eq_ok_iff.1 h
  obtain ⟨-, rfl⟩ := sampleAll_eq_ok_iff.1 hsampled
  rcases hcases with ⟨-, rfl⟩ | ⟨hsome, -⟩
  · rfl
  · -- what is drawn is a distribution
    obtain ⟨p, hp, hdrawn⟩ := List.all_eq_false.1 hsome
    obtain ⟨a, ha, rfl⟩ := List.mem_map.1 hp
    obtain ⟨values, hvalues⟩ := Option.ne_none_iff_exists'.1 (mt Option.isNone_iff_eq_none.2 hdrawn)
    obtain ⟨name, args, c, hv, -⟩ := Assignment.drawn?_eq_some_iff.1 hvalues
    exact absurd ⟨a, ha, by rw [hv]; rfl⟩ hs

theorem length_expand (hs : ∃ a ∈ d.assignments, a.value.isDistribution = true) :
    ds.length = ((AutomataNet.draws cap d.assignments).map (·.outcomes.length)).prod := by
  obtain ⟨n, -, rfl⟩ := (expand_of_samples h).2 hs
  rw [List.length_map, ← (resolves_combinations cap d.assignments).length_eq, length_positions]

/-- A destination that samples is replaced by a product. -/
theorem isProduct_of_expand (hs : ∃ a ∈ d.assignments, a.value.isDistribution = true) :
    d.IsProduct cap (AutomataNet.draws cap d.assignments) ds := by
  have hsize := length_expand h hs
  obtain ⟨hdrawn, hall⟩ := expand_of_samples h
  obtain ⟨n, hn, rfl⟩ := hall hs
  exact
    { draws := by
        intro w
        rw [mem_draws]
        simp only [Assignment.drawn?_eq_some_iff]
        constructor
        · rintro ⟨a, ha, name, args, c, hv, ho⟩
          exact ⟨a, name, args, c, ha, hv, ho⟩
        · rintro ⟨a, name, args, c, ha, hv, ho⟩
          exact ⟨a, ha, name, args, c, hv, ho⟩
      complete := by
        intro i a ha hsample
        obtain ⟨values, hvalues⟩ :=
          Option.isSome_iff_exists.1 (hdrawn a (List.mem_of_getElem? ha) hsample)
        exact ⟨⟨i, values⟩, mem_draws.2 ⟨a, ha, hvalues⟩, rfl⟩
      sorted := draws_sorted cap d.assignments
      size := hsize
      resolved := by
        refine ⟨_, fun pick => ?_, positions_pairwise _,
          List.forall₂_map_right_iff.2 (resolves_combinations cap d.assignments)⟩
        rw [mem_positions, List.forall₂_map_right_iff]
      frame := by
        intro d' hd'
        obtain ⟨assignments, -, rfl⟩ := List.mem_map.1 hd'
        exact ⟨rfl, rfl⟩
      shared := by
        refine ⟨n, ?_, ?_, fun d' hd' => ?_⟩
        · rw [hn, combinationCount_eq]
          exact_mod_cast prod_draws_pos cap d.assignments
        · rw [hn, hsize, combinationCount_eq]
        · obtain ⟨assignments, -, rfl⟩ := List.mem_map.1 hd'
          rfl }

end

end Destination

/-! ## Weights -/

/-- Values of weights, in a field for instance. Integer literals stand for themselves and `/`
divides; anything else is free. -/
structure Weighing (K : Type*) [DivisionRing K] where
  value : Expr → K
  value_int (n : Int64) (c : Option String) : value (.literal (.int n) c) = (n.toInt : K)
  value_divide (l r : Expr) (c : Option String) :
    value (.operator .divide [("left", l), ("right", r)] c) = value l / value r

namespace Weighing

variable {K : Type*} [DivisionRing K] [CharZero K] (W : Weighing K)

def weight (d : Destination) : K := W.value d.weight

/-- Expanding a destination loses no weight. -/
theorem sum_expand {cap : Nat} {d : Destination} {ds : List Destination}
    (h : d.expand cap = .ok ds) : (ds.map W.weight).sum = W.weight d := by
  by_cases hs : ∃ a ∈ d.assignments, a.value.isDistribution = true
  · obtain ⟨n, hpos, hn, hshared⟩ := (Destination.isProduct_of_expand h hs).shared
    have hne : (n.toInt : K) ≠ 0 := by exact_mod_cast hpos.ne'
    have hequal : ∀ d' ∈ ds, W.weight d' = W.weight d / n.toInt := by
      intro d' hd'
      rw [weight, Destination.weight, hshared d' hd']
      exact (W.value_divide _ _ _).trans (by rw [Expr.ofInt, Expr.lit, W.value_int]; rfl)
    calc (ds.map W.weight).sum
        = (List.replicate ds.length (W.weight d / n.toInt)).sum := by
          rw [List.map_congr_left hequal, List.map_const']
      _ = W.weight d / n.toInt * n.toInt := by
          rw [List.sum_replicate, nsmul_eq_mul', hn, Int.cast_natCast]
      _ = W.weight d := div_mul_cancel₀ _ hne
  · rw [Destination.expand_of_not_sampling h hs]
    simp

theorem sum_expandEdge {cap : Nat} {e : Edge} (h : (e.expand cap).Succeeds) :
    ((e.expand cap).state.destinations.map W.weight).sum = (e.destinations.map W.weight).sum := by
  obtain ⟨groups, hgroups, hstate⟩ := Edge.expand_of_succeeds h
  rw [hstate]
  clear hstate
  dsimp only
  generalize e.destinations = destinations at hgroups ⊢
  induction hgroups with
  | nil => rfl
  | cons hd _ ih => rw [List.flatten_cons, List.map_append, List.sum_append, W.sum_expand hd, ih,
      List.map_cons, List.sum_cons]

end Weighing

/-! ## Integer ranges -/

/-- The sample is uniform over a range of integers, and the cap is no less than their number. -/
def Destination.Ranges (cap : Nat) (d : Destination) (w : Draw) (range : Int64 × Int64) : Prop :=
  range.2.toInt - range.1.toInt < (max cap 1 : Nat) ∧
    ∃ a c c₁ c₂, d.assignments[w.position]? = some a ∧
      a.value = .distribution "DiscreteUniform"
        [.literal (.int range.1) c₁, .literal (.int range.2) c₂] c

theorem outcomes_range {lo hi : Int64} {c₁ c₂ : Option String} {cap : Nat} {values : List Expr}
    (h : outcomes "DiscreteUniform" [.literal (.int lo) c₁, .literal (.int hi) c₂] cap = .ok values)
    (hspan : hi.toInt - lo.toInt < (max cap 1 : Nat)) :
    values = (List.range ((hi.toInt - lo.toInt).toNat + 1)).map fun (i : Nat) =>
      .ofInt (Int64.ofInt (lo.toInt + i)) := by
  simp only [outcomes, if_true, integerOutcomes] at h
  split at h
  · contradiction
  · obtain rfl := Except.ok.inj h
    rw [spacedIntegers, if_pos hspan, List.map_map]
    rfl

/-- The outcomes of a range are its integers, each at its distance from the start. -/
theorem getElem?_outcomes_range {lo hi z : Int64} {c₁ c₂ : Option String} {cap : Nat}
    {values : List Expr}
    (h : outcomes "DiscreteUniform" [.literal (.int lo) c₁, .literal (.int hi) c₂] cap = .ok values)
    (hspan : hi.toInt - lo.toInt < (max cap 1 : Nat)) (hlo : lo ≤ z) (hhi : z ≤ hi) (k : Nat) :
    values[k]? = some (.ofInt z) ↔ k = (z.toInt - lo.toInt).toNat := by
  rw [Int64.le_iff_toInt_le] at hlo hhi
  have hmin := Int64.le_toInt lo
  have hmax := Int64.toInt_lt hi
  rw [outcomes_range h hspan, List.getElem?_map, Option.map_eq_some_iff]
  constructor
  · rintro ⟨i, hi, hz⟩
    obtain ⟨hk, rfl⟩ := List.getElem?_eq_some_iff.1 hi
    simp only [List.length_range] at hk
    simp only [List.getElem_range, Expr.ofInt, Expr.lit, Expr.literal.injEq, Value.int.injEq,
      and_true] at hz
    have hz' := congrArg Int64.toInt hz
    rw [Int64.toInt_ofInt_of_le (by omega) (by omega)] at hz'
    omega
  · rintro rfl
    refine ⟨(z.toInt - lo.toInt).toNat, List.getElem?_range (by omega), ?_⟩
    have hz : lo.toInt + ((z.toInt - lo.toInt).toNat : Nat) = z.toInt := by omega
    rw [hz, Int64.ofInt_toInt]

/-- Each integer of the range is an outcome once, at its distance from the start. -/
def Draw.Covers (w : Draw) (range : Int64 × Int64) : Prop :=
  ∀ z : Int64, range.1 ≤ z ∧ z ≤ range.2 → ∀ k : Nat,
    w.outcomes[k]? = some (.ofInt z) ↔ k = (z.toInt - range.1.toInt).toNat

/-- The values lie in their ranges. -/
def Within (zs : List Int64) (ranges : List (Int64 × Int64)) : Prop :=
  List.Forall₂ (fun z range => range.1 ≤ z ∧ z ≤ range.2) zs ranges

/-- The position of each value in its range. -/
def offsets (zs : List Int64) (ranges : List (Int64 × Int64)) : List Nat :=
  List.zipWith (fun z range => (z.toInt - range.1.toInt).toNat) zs ranges

/-- The samples are assigned these integers. -/
def Assigns (ws : List Draw) (zs : List Int64) (as : List Assignment) : Prop :=
  List.Forall₂ (fun w z => (as[w.position]?).map (·.value) = some (.ofInt z)) ws zs

section

variable {ws : List Draw} {ranges : List (Int64 × Int64)} {zs : List Int64}

theorem offsets_lt (hc : List.Forall₂ Draw.Covers ws ranges) (hz : Within zs ranges) :
    List.Forall₂ (fun k w => k < w.outcomes.length) (offsets zs ranges) ws := by
  induction hc generalizing zs with
  | nil =>
    cases hz
    exact .nil
  | cons hw _ ih =>
    obtain _ | ⟨hin, hz⟩ := hz
    exact .cons (List.getElem?_eq_some_iff.1 ((hw _ hin _).2 rfl)).1 (ih hz)

/-- The integers assigned fix the choice of positions. -/
theorem Resolves.assigns_iff {as as' : List Assignment} {pick : List Nat}
    (h : Resolves ws as pick as') (hlen : ws.length = pick.length)
    (hc : List.Forall₂ Draw.Covers ws ranges) (hz : Within zs ranges) :
    Assigns ws zs as' ↔ pick = offsets zs ranges := by
  have hvalues : List.Forall₂ (fun w k => (as'[w.position]?).map (·.value) = w.outcomes[k]?)
      ws pick := by
    rw [List.forall₂_iff_get]
    refine ⟨hlen, fun j hw hk => ?_⟩
    obtain ⟨a, value, -, hvalue, ha⟩ :=
      h.drawn j _ _ (List.getElem?_eq_getElem hw) (List.getElem?_eq_getElem hk)
    simp only [List.get_eq_getElem, ha, hvalue, Option.map_some]
  clear h hlen
  induction hc generalizing zs pick with
  | nil =>
    cases hz
    cases hvalues
    simp [Assigns, offsets]
  | cons hw _ ih =>
    obtain _ | ⟨hin, hz⟩ := hz
    obtain _ | ⟨hvalue, hvalues⟩ := hvalues
    have hrest := ih hz hvalues
    simp only [Assigns, offsets, List.forall₂_cons, hvalue, hw _ hin, List.zipWith_cons_cons,
      List.cons.injEq]
    exact and_congr_right' hrest

end

namespace Destination.IsProduct

variable {cap : Nat} {d : Destination} {ws : List Draw} {ds : List Destination}
  {ranges : List (Int64 × Int64)} {zs : List Int64}

theorem covers (h : d.IsProduct cap ws ds) (hr : List.Forall₂ (d.Ranges cap) ws ranges) :
    List.Forall₂ Draw.Covers ws ranges := by
  rw [List.forall₂_iff_get] at hr ⊢
  refine ⟨hr.1, fun j hw hrange z hz k => ?_⟩
  obtain ⟨a, name, args, c, ha, hv, ho⟩ := (h.draws _).1 (List.get_mem ws ⟨j, hw⟩)
  obtain ⟨hspan, b, c', c₁, c₂, hb, hv'⟩ := hr.2 j hw hrange
  obtain rfl : a = b := Option.some.inj (ha.symm.trans hb)
  rw [hv] at hv'
  cases hv'
  exact getElem?_outcomes_range ho hspan hz.1 hz.2 k

/-- Integers from the ranges are drawn together in one destination, and in no other. -/
theorem existsUnique_assigns (h : d.IsProduct cap ws ds)
    (hr : List.Forall₂ (d.Ranges cap) ws ranges) (hz : Within zs ranges) :
    ∃! k : Nat, ∃ d', ds[k]? = some d' ∧ Assigns ws zs d'.assignments := by
  have hc := h.covers hr
  obtain ⟨picks, hpicks, hlex, hres⟩ := h.resolved
  have hnodup : picks.Nodup := hlex.nodup
  rw [List.forall₂_iff_get] at hres
  -- a destination has the integers just when it stands at the place of their positions
  have hplace : ∀ k : Nat, (∃ d', ds[k]? = some d' ∧ Assigns ws zs d'.assignments) ↔
      picks[k]? = some (offsets zs ranges) := by
    intro k
    by_cases hk : k < picks.length
    · have hk' := hres.1 ▸ hk
      have hpick := (hpicks picks[k]).1 (List.getElem_mem hk)
      have hiff := (hres.2 k hk hk').assigns_iff hpick.length_eq.symm hc hz
      simpa [List.getElem?_eq_getElem hk, List.getElem?_eq_getElem hk'] using hiff
    · simp [List.getElem?_eq_none (not_lt.1 hk), List.getElem?_eq_none (hres.1 ▸ not_lt.1 hk)]
  obtain ⟨k, hk⟩ := List.mem_iff_getElem?.1 ((hpicks _).2 (offsets_lt hc hz))
  refine ⟨k, (hplace k).2 hk, fun l hl => ?_⟩
  have hl := (hplace l).1 hl
  exact (List.getElem?_inj (List.getElem?_eq_some_iff.1 hl).1 hnodup).1 (hl.trans hk.symm)

end Destination.IsProduct

/-! ## The product -/

/-- A destination that samples is replaced by the product of its samples, which loses no weight and
in which integers from full ranges meet exactly once. The total weight of an edge stays. -/
theorem expand_isProduct {K : Type*} [DivisionRing K] [CharZero K] (W : Weighing K) (cap : Nat) :
    (∀ (d : Destination) (ds : List Destination), d.expand cap = .ok ds →
      (∃ a ∈ d.assignments, a.value.isDistribution = true) →
      d.IsProduct cap (draws cap d.assignments) ds ∧ (ds.map W.weight).sum = W.weight d ∧
        ∀ ranges zs, List.Forall₂ (d.Ranges cap) (draws cap d.assignments) ranges →
          Within zs ranges →
          ∃! k : Nat, ∃ d', ds[k]? = some d' ∧
            Assigns (draws cap d.assignments) zs d'.assignments) ∧
    ∀ e : Edge, (e.expand cap).Succeeds →
      ((e.expand cap).state.destinations.map W.weight).sum = (e.destinations.map W.weight).sum := by
  refine ⟨fun d ds h hs => ?_, fun e h => W.sum_expandEdge h⟩
  have hproduct := Destination.isProduct_of_expand h hs
  exact ⟨hproduct, W.sum_expand h, fun ranges zs hr hz => hproduct.existsUnique_assigns hr hz⟩

/-- Fractions of integers, as rational numbers. -/
def Expr.fraction : Expr → ℚ
  | .literal (.int n) _ => n.toInt
  | .operator .divide [(_, l), (_, r)] _ => l.fraction / r.fraction
  | _ => 0

def fractions : Weighing ℚ where
  value := Expr.fraction
  value_int := by intros; simp [Expr.fraction]
  value_divide := by intros; simp [Expr.fraction]

/-- A coin, and a die that only shows 5 and 6, thrown half of the time. -/
def toss : Destination where
  location := "table"
  probability := some { exp := .binary .divide (.ofInt 1) (.ofInt 2) }
  assignments := [
    ⟨.var "coin", .distribution "DiscreteUniform" [.ofInt 0, .ofInt 1] none, none⟩,
    ⟨.var "thrown", .lit (.bool true), none⟩,
    ⟨.var "die", .distribution "DiscreteUniform" [.ofInt 5, .ofInt 6] none, none⟩]

def tosses : Edge where
  location := "table"
  destinations := [toss, toss]

/-- Heads and five come up in one of the four destinations. -/
theorem expand_isProduct_toss :
    ∃ ds, toss.expand 2 = .ok ds ∧ ds.length = 4 ∧
      toss.IsProduct 2 (draws 2 toss.assignments) ds ∧ (ds.map fractions.weight).sum = 1 / 2 ∧
      (∃! k : Nat, ∃ d', ds[k]? = some d' ∧
        Assigns (draws 2 toss.assignments) [1, 5] d'.assignments) ∧
      ((tosses.expand 2).state.destinations.map fractions.weight).sum = 1 := by
  have hlength : (toss.expand 2).toOption.map List.length = some 4 := by decide +kernel
  obtain ⟨ds, hds, hlength⟩ := Option.map_eq_some_iff.1 hlength
  have hds := Except.toOption_eq_some_iff.1 hds
  have hdraws : draws 2 toss.assignments =
      [⟨0, [.ofInt 0, .ofInt 1]⟩, ⟨2, [.ofInt 5, .ofInt 6]⟩] := rfl
  have hweight : fractions.weight toss = 1 / 2 := by
    simp [Weighing.weight, Destination.weight, fractions, toss, Expr.fraction, Expr.binary,
      Expr.ofInt, Expr.lit]
  have hranges : List.Forall₂ (toss.Ranges 2) (draws 2 toss.assignments) [(0, 1), (5, 6)] := by
    rw [hdraws]
    exact .cons ⟨by decide, _, _, _, _, rfl, rfl⟩ (.cons ⟨by decide, _, _, _, _, rfl, rfl⟩ .nil)
  have hwithin : Within [1, 5] [(0, 1), (5, 6)] := .cons (by decide) (.cons (by decide) .nil)
  have hrun : (tosses.expand 2).Succeeds := ⟨2, rfl⟩
  obtain ⟨hone, hall⟩ := expand_isProduct fractions 2
  obtain ⟨hproduct, hsum, hmeet⟩ := hone toss ds hds ⟨_, List.mem_cons_self, rfl⟩
  refine ⟨ds, hds, hlength, hproduct, hsum.trans hweight, hmeet _ _ hranges hwithin, ?_⟩
  rw [hall tosses hrun]
  norm_num [tosses, hweight]

end AutomataNet
