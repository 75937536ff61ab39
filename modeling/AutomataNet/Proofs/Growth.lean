import AutomataNet.Proofs.Chains
import AutomataNet.Proofs.Levels
import AutomataNet.Proofs.Product
import AutomataNet.Proofs.Reload
import AutomataNet.Proofs.WellFormed
/-!
# How deep automata get

Conversion makes expressions deeper in three places. The negated guards of a self-loop are chained
to one disjunction, the weight of a destination that samples is divided, and a comparison with an
array value becomes a chain with one link for each element. Going through the passes in turn, this
bounds the depth of what becomes of an automaton (`Automaton.fitsAt_converted`).
-/

namespace AutomataNet

/-- The expression keeps within a limit of depth, and its comparisons within a limit of length. -/
def Expr.Bounded (k c level : Nat) (e : Expr) : Prop := e.FitsAt k level ∧ e.compared ≤ c

theorem Expr.Bounded.mono {k k' c c' level : Nat} {e : Expr} (h : e.Bounded k c level)
    (hk : k ≤ k') (hc : c ≤ c') : e.Bounded k' c' level :=
  ⟨h.1.trans hk, h.2.trans hc⟩

/-! ## Self-loops -/

theorem bounded_neg_foldl_disj {first : Expr} {rest : List Expr} {k c n : Nat}
    (h : ∀ g ∈ first :: rest, g.Bounded k c 4) (hn : (first :: rest).length ≤ n) :
    (Expr.neg (rest.foldl .disj first)).Bounded (k + n) c 4 := by
  obtain ⟨hfirst, hrest⟩ := List.forall_mem_cons.1 h
  have hdepth : (rest.foldl .disj first).toJson.depth ≤ k - 4 + rest.length :=
    Expr.depth_toJson_foldl_binary (fun g hg => Nat.le_sub_of_add_le (hrest g hg).1)
      (Nat.le_sub_of_add_le hfirst.1)
  have hlevel := hfirst.1.level_le
  constructor
  · change (Expr.neg _).toJson.depth + 4 ≤ k + n
    rw [List.length_cons] at hn
    rw [Expr.depth_toJson_neg]
    omega
  · have hcompared := Expr.compared_foldl_disj (fun g hg => (hrest g hg).2) hfirst.2
    simpa [Expr.neg, Expr.compared, Expr.operandsCompared] using hcompared

namespace Automaton

/-- The guards of the edges that take an action in a location. -/
def rivals (a : Automaton) (action location : String) : List Expr :=
  ((a.edgesWithAction action).filter (·.location = location)).filterMap (·.guardExp?)

/-- The largest number of guards between which a received event chooses. -/
def rivalry (a : Automaton) : Nat :=
  (a.edges.filterMap fun e => (e.action.bind receivedEvent?).map fun event =>
    (a.rivals (receiveLabel event) e.location).length).max?.getD 0

theorem length_rivals_le (a : Automaton) (event location : String) :
    (a.rivals (receiveLabel event) location).length ≤ a.rivalry := by
  rcases List.eq_nil_or_concat (a.rivals (receiveLabel event) location) with hnone | ⟨gs, g, hg⟩
  · rw [hnone]
    exact Nat.zero_le _
  · -- one of the edges that have a guard there stands for all
    have hmem : g ∈ a.rivals (receiveLabel event) location := by simp [hg]
    obtain ⟨e, he, -⟩ := List.mem_filterMap.1 hmem
    obtain ⟨he, hlocation⟩ := List.mem_filter.1 he
    obtain ⟨he, haction⟩ := List.mem_filter.1 he
    apply List.le_max?_getD_of_mem
    refine List.mem_filterMap.2 ⟨e, he, Option.map_eq_some_iff.2 ⟨event, ?_, ?_⟩⟩
    · rw [of_decide_eq_true haction]
      exact receivedEvent?_eq_some_iff.2 rfl
    · rw [of_decide_eq_true hlocation]

theorem bounded_rivals {a : Automaton} {k c : Nat} (h : ∀ e ∈ a.edges, e.Each (Expr.Bounded k c))
    (action location : String) : ∀ g ∈ a.rivals action location, g.Bounded k c 4 := by
  intro g hg
  obtain ⟨e, he, hguard⟩ := List.mem_filterMap.1 hg
  obtain ⟨x, hx, rfl⟩ := Option.map_eq_some_iff.1 hguard
  exact (h e (List.mem_filter.1 (List.mem_filter.1 he).1).1).guard x hx

/-- The guard of a self-loop has one link for each guard that it negates. -/
theorem each_discards {a : Automaton} {k c : Nat} (h : ∀ e ∈ a.edges, e.Each (Expr.Bounded k c))
    {event : String} {e : Edge} (he : e ∈ a.discards (receiveLabel event)) :
    e.Each (Expr.Bounded (k + a.rivalry) c) := by
  obtain ⟨l, -, he⟩ := List.mem_filterMap.1 he
  have hrivals := bounded_rivals h (receiveLabel event) l.name
  have hlength := a.length_rivals_le event l.name
  unfold discard? at he
  dsimp only at he
  split at he
  · contradiction
  · obtain rfl := Option.some.inj he
    refine ⟨?_, ?_⟩
    · intro g hg
      dsimp only at hg
      split at hg
      · cases hg
      · rename_i first rest hguards
        obtain rfl := Option.some.inj hg
        change a.rivals (receiveLabel event) l.name = first :: rest at hguards
        rw [hguards] at hrivals hlength
        exact bounded_neg_foldl_disj hrivals hlength
    · -- a self-loop has neither a weight nor assignments
      have hweight : ∀ p ∈ (none : Option Probability), p.exp.Bounded (k + a.rivalry) c 6 :=
        fun p hp => absurd hp (Option.not_mem_none p)
      exact List.forall_mem_singleton.2 ⟨hweight, List.forall_mem_nil _, List.forall_mem_nil _⟩

/-- What an event adds does not depend on the events before it. -/
theorem discards_enable {x : EventEntry} {a : Automaton} {event : String} (hne : event ≠ x.event) :
    (x.enable a).discards (receiveLabel event) = a.discards (receiveLabel event) := by
  have hedges : (x.enable a).edgesWithAction (receiveLabel event) =
      a.edgesWithAction (receiveLabel event) := by
    unfold EventEntry.enable
    split
    · -- the self-loops carry the label of the other event
      have hother : ∀ e ∈ a.discards (receiveLabel x.event),
          ¬ decide (e.action = some (receiveLabel event)) = true := by
        intro e he hlabel
        rw [(loops_of_mem_discards he).1, decide_eq_true_eq, Option.some.injEq] at hlabel
        have hsame : Role.receiver.label x.event = Role.receiver.label event := hlabel
        exact hne (Role.label_inj.1 hsame).2.symm
      rw [edgesWithAction, inputEnable, List.filter_append, List.filter_eq_nil_iff.2 hother,
        List.append_nil, edgesWithAction]
    · rfl
  have hlocations : (x.enable a).locations = a.locations := by
    obtain ⟨added, henable⟩ := x.enable_eq a
    rw [henable]
  have hdiscard : (x.enable a).discard? (receiveLabel event) = a.discard? (receiveLabel event) := by
    funext l
    simp only [discard?, hedges]
  rw [discards, discards, hlocations, hdiscard]

/-- Where events differ, each edge of an automaton made ready was there before or discards an event
as the automaton did at first. -/
theorem mem_edges_foldl_enable {entries : List EventEntry} (hn : (entries.map (·.event)).Nodup)
    {a : Automaton} {e : Edge} (he : e ∈ (entries.foldl (fun a x => x.enable a) a).edges) :
    e ∈ a.edges ∨ ∃ x ∈ entries, e ∈ a.discards (receiveLabel x.event) := by
  induction entries generalizing a with
  | nil => exact .inl he
  | cons x entries ih =>
    obtain ⟨hx, hn⟩ := List.nodup_cons.1 hn
    rw [List.foldl_cons] at he
    rcases ih hn he with he | ⟨y, hy, he⟩
    · unfold EventEntry.enable at he
      split at he
      · exact (List.mem_append.1 he).imp_right fun he => ⟨x, List.mem_cons_self, he⟩
      · exact .inl he
    · have hne : y.event ≠ x.event := fun heq => hx (List.mem_map.2 ⟨y, hy, heq⟩)
      rw [discards_enable hne] at he
      exact .inr ⟨y, List.mem_cons_of_mem x hy, he⟩

end Automaton

/-! ## Samples -/

/-- Something is sampled on the way to the destination. -/
def Destination.isSampling (d : Destination) : Bool := d.assignments.any (·.value.isDistribution)

/-- One level more if weights have to be divided. -/
def Automaton.sampling (a : Automaton) : Nat :=
  if a.edges.any fun e => e.destinations.any (·.isSampling) then 1 else 0

/-- The expressions on an edge keep within the limits, also when weights have been divided. -/
structure Edge.Ample (k c : Nat) (e : Edge) : Prop where
  each : e.Each (Expr.Bounded k c)
  weight : ∀ d ∈ e.destinations, d.isSampling = true → d.weight.FitsAt k 7

/-- One level more is enough to divide a weight. Where there is none a number is divided, at the
level that the sampled value has too. -/
theorem Destination.Each.fitsAt_weight {d : Destination} {k c : Nat}
    (h : d.Each (Expr.Bounded k c)) (hs : d.isSampling = true) : d.weight.FitsAt (k + 1) 7 := by
  change d.weight.toJson.depth + 7 ≤ k + 1
  unfold Destination.weight
  cases hp : d.probability with
  | some p =>
    have hweight : p.exp.toJson.depth + 6 ≤ k := (h.weight p hp).1
    dsimp only
    omega
  | none =>
    obtain ⟨x, hx, -⟩ := List.any_eq_true.1 hs
    have hlevel := (h.value x hx).1.level_le
    change 0 + 7 ≤ k + 1
    omega

namespace Automaton

/-- How many levels the edges of an automaton may gain before they are normalized. -/
def growth (a : Automaton) : Nat := max a.rivalry a.sampling

theorem one_le_growth {a : Automaton} {e : Edge} (he : e ∈ a.edges) {d : Destination}
    (hd : d ∈ e.destinations) (hs : d.isSampling = true) : 1 ≤ a.growth := by
  have hany : (a.edges.any fun e => e.destinations.any (·.isSampling)) = true :=
    List.any_eq_true.2 ⟨e, he, List.any_eq_true.2 ⟨d, hd, hs⟩⟩
  have hone : a.sampling = 1 := if_pos hany
  exact hone ▸ le_max_right ..

theorem ample_enabled {a : Automaton} {k c : Nat} (h : ∀ e ∈ a.edges, e.Each (Expr.Bounded k c))
    {t : EventTable} (ht : t.Sorted) :
    ∀ e ∈ (t.enabled a).edges, e.Ample (k + a.growth) c := by
  intro e he
  rcases mem_edges_foldl_enable ht.events.nodup he with he | ⟨x, -, he⟩
  · refine ⟨(h e he).mono fun _ _ _ hb => hb.mono (Nat.le_add_right ..) le_rfl, fun d hd hs => ?_⟩
    have hone := one_le_growth he hd hs
    exact (((h e he).destinations d hd).fitsAt_weight hs).trans (by omega)
  · have hmax : a.rivalry ≤ a.growth := le_max_left ..
    refine ⟨(each_discards h he).mono fun _ _ _ hb => hb.mono (by omega) le_rfl, fun d hd hs => ?_⟩
    obtain ⟨-, l, -, -, hdest⟩ := loops_of_mem_discards he
    rw [hdest, List.mem_singleton] at hd
    subst hd
    contradiction

end Automaton

/-- Outcomes are numbers. -/
theorem outcomes_flat {name : String} {args : List Expr} {cap : Nat} {values : List Expr}
    (h : outcomes name args cap = .ok values) :
    ∀ v ∈ values, v.toJson.depth = 0 ∧ v.compared = 0 := by
  intro v hv
  rcases (outcomes_literals h).2 v hv with ⟨n, rfl⟩ | ⟨x, rfl⟩
  · exact ⟨rfl, rfl⟩
  · exact ⟨rfl, rfl⟩

theorem Destination.Each.of_mem_combinations {d : Destination} {k c : Nat}
    (h : d.Each (Expr.Bounded k c)) (hk : 7 ≤ k) {cap : Nat} {as : List Assignment}
    (has : as ∈ combinations (drawAll cap d.assignments)) :
    ∀ x ∈ as, x.target.Bounded k c 7 ∧ x.value.Bounded k c 7 := by
  intro x hx
  obtain ⟨q, hq, hcases⟩ := mem_combinations has x hx
  obtain ⟨a, ha, rfl⟩ := List.mem_map.1 hq
  rcases hcases with ⟨-, rfl⟩ | ⟨values, hdrawn, v, hv, rfl⟩
  · exact ⟨h.target x ha, h.value x ha⟩
  · obtain ⟨_, _, _, -, hout⟩ := Assignment.drawn?_eq_some_iff.1 hdrawn
    obtain ⟨hdepth, hnone⟩ := outcomes_flat hout v hv
    refine ⟨h.target a ha, ?_, hnone.trans_le (Nat.zero_le c)⟩
    change v.toJson.depth + 7 ≤ k
    omega

theorem Destination.each_expand {d d' : Destination} {ds : List Destination} {cap k c : Nat}
    (h : d.Each (Expr.Bounded k c)) (hweight : d.isSampling = true → d.weight.FitsAt k 7)
    (hexpand : d.expand cap = .ok ds) (hd : d' ∈ ds) : d'.Each (Expr.Bounded k c) := by
  by_cases hs : ∃ a ∈ d.assignments, a.value.isDistribution = true
  · have hfits : d.weight.toJson.depth + 7 ≤ k := hweight (List.any_eq_true.2 hs)
    have hcompared : d.weight.compared ≤ c := by
      unfold weight
      cases hp : d.probability with
      | some p => exact (h.weight p hp).2
      | none => exact Nat.zero_le _
    obtain ⟨n, -, rfl⟩ := (expand_of_samples hexpand).2 hs
    obtain ⟨as, has, rfl⟩ := List.mem_map.1 hd
    have hassign := h.of_mem_combinations (by omega) has
    refine ⟨?_, fun x hx => (hassign x hx).1, fun x hx => (hassign x hx).2⟩
    rintro p ⟨⟩
    constructor
    · change (Expr.binary .divide d.weight (.ofInt n)).toJson.depth + 6 ≤ k
      have hcount : (Expr.ofInt n).toJson.depth = 0 := rfl
      rw [Expr.depth_toJson_binary]
      omega
    · have hcount : (Expr.ofInt n).compared = 0 := rfl
      simpa [Expr.binary, Expr.compared, Expr.operandsCompared, hcount] using hcompared
  · rw [expand_of_not_sampling hexpand hs, List.mem_singleton] at hd
    exact hd ▸ h

theorem Edge.Ample.expand {e : Edge} {cap k c : Nat} (h : e.Ample k c)
    (he : (e.expand cap).Succeeds) : (e.expand cap).state.Each (Expr.Bounded k c) := by
  constructor
  · obtain ⟨destinations, hstate⟩ := e.state_expand cap
    rw [hstate]
    exact h.each.guard
  · intro d' hd'
    obtain ⟨d, hd, ds, hexpand, hd'⟩ := mem_destinations_expand he hd'
    exact Destination.each_expand (h.each.destinations d hd) (h.weight d hd) hexpand hd'

/-! ## Normal forms -/

/-- Targets stay, and all other expressions are normalized. -/
theorem Edge.Each.normalize {scope : Scope} {e : Edge} {k n : Nat}
    (h : e.Each (Expr.Bounded k (n + 1))) (he : (e.normalize scope).Succeeds) :
    (e.normalize scope).state.Each (Expr.FitsAt (k + n)) := by
  have hnormal : ∀ {level : Nat} {x x' : Expr}, x.Bounded k (n + 1) level →
      (x.normalize scope).outcome = .ok x' → x'.FitsAt (k + n) level := by
    intro level x x' hx hnorm
    have hdepth := Expr.depth_normalize hnorm hx.2
    have hfits : x.toJson.depth + level ≤ k := hx.1
    change x'.toJson.depth + level ≤ k + n
    omega
  constructor
  · intro g' hg
    have hrel := guardExp?_normalize he
    have hexp : (e.normalize scope).state.guardExp? = some g'.exp := Option.map_eq_some_iff.2
      ⟨g', hg, rfl⟩
    rw [hexp] at hrel
    generalize hx : e.guardExp? = x at hrel
    cases hrel with
    | some hnorm =>
      obtain ⟨g, hg, rfl⟩ := Option.map_eq_some_iff.1 hx
      exact hnormal (h.guard g hg) hnorm
  · intro d' hd'
    obtain ⟨d, hd, hsucceeds, rfl⟩ := destinations_normalize he hd'
    have heach := h.destinations d hd
    constructor
    · intro p' hp'
      obtain ⟨p, hp, hnorm⟩ := Destination.probability_normalize hsucceeds hp'
      exact hnormal (heach.weight p hp) hnorm
    · intro x' hx'
      obtain ⟨x, hx, htarget, -⟩ := Destination.assignments_normalize hsucceeds hx'
      rw [htarget]
      exact (heach.target x hx).1.trans (Nat.le_add_right ..)
    · intro x' hx'
      obtain ⟨x, hx, -, hnorm⟩ := Destination.assignments_normalize hsucceeds hx'
      exact hnormal (heach.value x hx) hnorm

/-! ## Variables -/

namespace Registry

/-- A companion is an object that holds its type. -/
theorem fitsAt_lengthVariable {array : String} {d capacity length k : Nat} (hk : 4 ≤ k) :
    (Variable.codec.encode (lengthVariable array d capacity length)).FitsAt k 2 := by
  have hdepth : (Variable.codec.encode (lengthVariable array d capacity length)).depth = 2 := rfl
  change _ + 2 ≤ k
  omega

/-- Capacities are not written. -/
theorem fitsAt_setCapacities {r : Registry} {k : Nat} (hk : 4 ≤ k)
    (h : (codec.encode r).FitsAt k 1) (name : String) (capacities : List Nat) :
    (codec.encode (r.setCapacities name capacities).state).FitsAt k 1 := by
  obtain ⟨hlist, hvars⟩ := Codec.fitsAt_list.1 h
  refine Codec.fitsAt_list.2 ⟨hlist, fun w hw => ?_⟩
  rcases mem_setCapacities hw with hw | ⟨-, ⟨v, hv, -, rfl⟩ | ⟨d, capacity, length, -, -, rfl⟩⟩
  · exact hvars w hw
  · exact hvars v hv
  · exact fitsAt_lengthVariable hk

theorem fitsAt_sizeArrays {capacity k : Nat} (hk : 4 ≤ k) {vs : List Variable} {r : Registry}
    (h : (codec.encode r).FitsAt k 1) (hs : (r.sizeArrays capacity vs).Succeeds) :
    (codec.encode (r.sizeArrays capacity vs).state).FitsAt k 1 := by
  induction vs generalizing r with
  | nil => exact h
  | cons v vs ih =>
    rw [sizeArrays] at hs ⊢
    split at hs
    · obtain ⟨_, hfail⟩ := hs
      cases hfail
    · rename_i hsized
      obtain ⟨_, hok, hrest⟩ := Attempt.succeeds_andThen.1 hs
      rw [if_neg hsized, (Attempt.andThen_eq_of_ok hok _).2]
      exact ih (fitsAt_setCapacities hk h v.name _) hrest

end Registry

/-! ## Automata -/

/-- What becomes of an automaton in a model keeps within the limit if there is room for all that is
added to its edges. -/
theorem Automaton.fitsAt_converted {a : Automaton} {k n limit : Nat} (hlimit : 5 ≤ limit)
    (hroom : k + a.growth + n ≤ limit) (hlocals : (Registry.codec.encode a.locals).FitsAt limit 1)
    (hedges : ∀ e ∈ a.edges, e.Each (Expr.Bounded k (n + 1))) {t : EventTable} (ht : t.Sorted)
    {actions : List String} {cap : Nat} {b : Automaton} (hb : (t.enabled a).pruned actions = b)
    (he : (b.expand cap).Succeeds) {globals : Registry}
    (hn : ((b.expand cap).state.normalize globals).Succeeds) :
    (codec.encode ((b.expand cap).state.normalize globals).state).FitsAt limit 0 := by
  rw [state_normalize hn]
  apply fitsAt_of_each hlimit
  · obtain ⟨added, henabled⟩ := EventEntry.foldl_enable_eq t.entries a
    have hsame : (b.expand cap).state.locals = a.locals := by
      rw [state_expand he, ← hb, pruned, EventTable.enabled, henabled]
    rwa [hsame]
  · intro e' he'
    obtain ⟨e₁, he₁, rfl⟩ := List.mem_map.1 he'
    have hsucceeds := succeeds_normalize.1 hn e₁ he₁
    obtain ⟨e, hmem, rfl⟩ := (mem_edges_expand he).1 he₁
    have hample : e.Ample (k + a.growth) (n + 1) := by
      rw [← hb] at hmem
      exact ample_enabled hedges ht e (edges_pruned_subset actions _ hmem)
    have hexpanded := hample.expand (succeeds_expand.1 he e hmem)
    exact (hexpanded.normalize hsucceeds).mono fun _ _ _ hfits => hfits.trans hroom

end AutomataNet
