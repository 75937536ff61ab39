import AutomataNet.Proofs.Assembly
import AutomataNet.Proofs.Evaluation
import AutomataNet.Proofs.Expansion
import AutomataNet.Proofs.Normalization
/-!
# Receivers are always ready

A receiver gets a discarding self-loop wherever it does not always take the event. That makes it
ready when the loop is added, and the passes that follow must not undo it: pruning deletes edges,
expansion replaces destinations, and normalization rewrites the guards and their negation each on
its own. What survives them all is syntactic. The guards in a location stay `Covering`: one of them
is trivial, or one is the negated disjunction of others.
-/

namespace AutomataNet

/-! ## Truth of guards -/

/-- Truth values of expressions, where they have one. Literals, `¬` and `∨` mean what they usually
do; anything else is free. -/
structure Valuation where
  truth : Expr → Option Bool
  truth_literal (b : Bool) (c : Option String) : truth (.literal (.bool b) c) = some b
  truth_not {e : Expr} {b : Bool} (c : Option String) :
    truth e = some b → truth (.operator .not [("exp", e)] c) = some !b
  truth_or {e f : Expr} {b d : Bool} (c : Option String) :
    truth e = some b → truth f = some d →
      truth (.operator .or [("left", e), ("right", f)] c) = some (b || d)

namespace Valuation

variable (V : Valuation)

theorem truth_of_isTrue {e : Expr} (h : e.isTrue = true) : V.truth e = some true := by
  unfold Expr.isTrue at h
  split at h
  · exact V.truth_literal true _
  · contradiction

/-- A disjunction nested to the left is true exactly if one of its parts is. -/
theorem truth_foldl_disj {g : Expr} {gs : List Expr} (h : ∀ x ∈ g :: gs, ∃ b, V.truth x = some b) :
    V.truth (gs.foldl .disj g) = some ((g :: gs).any fun x => V.truth x = some true) := by
  induction gs generalizing g with
  | nil =>
    obtain ⟨b, hb⟩ := h g (by simp)
    cases b <;> simp [hb]
  | cons x gs ih =>
    obtain ⟨hg, hx, hgs⟩ : (∃ b, V.truth g = some b) ∧ (∃ b, V.truth x = some b) ∧
        ∀ y ∈ gs, ∃ b, V.truth y = some b := by simpa using h
    obtain ⟨b, hb⟩ := hg
    obtain ⟨d, hd⟩ := hx
    have hor : V.truth (.disj g x) = some (b || d) := V.truth_or none hb hd
    rw [List.foldl_cons, ih (List.forall_mem_cons.2 ⟨⟨_, hor⟩, hgs⟩)]
    cases b <;> cases d <;> simp [hor, hb, hd]

end Valuation

/-- Evaluation in a store, if the connectives are interpreted as usual. -/
def Interpretation.valuation {α : Type} [DecidableEq α] (I : Interpretation α)
    (hnot : ∀ b, I.apply .not [("exp", .bool b)] = .bool !b)
    (hor : ∀ b d, I.apply .or [("left", .bool b), ("right", .bool d)] = .bool (b || d))
    (σ : Store α) : Valuation where
  truth e :=
    match I.eval σ e with
    | .bool b => some b
    | _ => none
  truth_literal _ _ := rfl
  truth_not {e b} c h := by
    have he : I.eval σ e = .bool b := by
      split at h
      · simp_all
      · contradiction
    simp [Interpretation.eval, Interpretation.evalOperands, Interpretation.node,
      Interpretation.operate, he, hnot]
  truth_or {e f b d} c hb hd := by
    have he : I.eval σ e = .bool b := by
      split at hb
      · simp_all
      · contradiction
    have hf : I.eval σ f = .bool d := by
      split at hd
      · simp_all
      · contradiction
    simp [Interpretation.eval, Interpretation.evalOperands, Interpretation.node,
      Interpretation.operate, he, hf, hor]

/-! ## Covering guards -/

/-- Whatever the state, one of the guards holds: one is missing or the literal `true`, or one is the
negated disjunction of others. -/
inductive Covering (guards : List (Option Expr)) : Prop
  | always {o : Option Expr} (ho : o ∈ guards) (htrue : ∀ g ∈ o, g.isTrue = true)
  | otherwise {g : Expr} {gs : List Expr} (hneg : some (.neg (gs.foldl .disj g)) ∈ guards)
      (hall : ∀ x ∈ g :: gs, some x ∈ guards)

namespace Covering

theorem mono {guards guards' : List (Option Expr)} (h : Covering guards) (hs : guards ⊆ guards') :
    Covering guards' := by
  cases h with
  | always ho htrue => exact .always (hs ho) htrue
  | otherwise hneg hall => exact .otherwise (hs hneg) fun x hx => hs (hall x hx)

theorem exists_true {guards : List (Option Expr)} (h : Covering guards) (V : Valuation)
    (hb : ∀ g, some g ∈ guards → ∃ b, V.truth g = some b) :
    ∃ o ∈ guards, ∀ g ∈ o, V.truth g = some true := by
  cases h with
  | @always o ho htrue => exact ⟨o, ho, fun g hg => V.truth_of_isTrue (htrue g hg)⟩
  | @otherwise g gs hneg hall =>
    have hor := V.truth_foldl_disj fun x hx => hb x (hall x hx)
    -- either one of the guards is true, or the negation of them all is
    cases hany : (g :: gs).any fun x => V.truth x = some true with
    | true =>
      obtain ⟨x, hx, htrue⟩ := List.any_eq_true.1 hany
      refine ⟨some x, hall x hx, ?_⟩
      rintro y ⟨⟩
      simpa using htrue
    | false =>
      rw [hany] at hor
      refine ⟨_, hneg, ?_⟩
      rintro y ⟨⟩
      exact V.truth_not none hor

end Covering

namespace Automaton

/-- The guards of the edges that take an action in a location. -/
def guardsAt (a : Automaton) (action location : String) : List (Option Expr) :=
  ((a.edgesWithAction action).filter (·.location = location)).map (·.guardExp?)

theorem mem_guardsAt {a : Automaton} {action location : String} {o : Option Expr} :
    o ∈ a.guardsAt action location ↔
      ∃ e ∈ a.edges, e.location = location ∧ e.action = some action ∧ e.guardExp? = o := by
  simp [guardsAt, edgesWithAction, and_assoc]

theorem guardsAt_mono {a b : Automaton} (h : a.edges ⊆ b.edges) (action location : String) :
    a.guardsAt action location ⊆ b.guardsAt action location := by
  intro o ho
  obtain ⟨e, he, hrest⟩ := mem_guardsAt.1 ho
  exact mem_guardsAt.2 ⟨e, h he, hrest⟩

end Automaton

/-! ## Adding the self-loops -/

namespace Automaton

/-- An action is not discarded where some edge always takes it. Otherwise the self-loop has no guard
if no edge takes the action there, and the negation of all the guards if some do. -/
theorem discard?_cases (a : Automaton) (action : String) (l : Location) :
    ((∃ o ∈ a.guardsAt action l.name, ∀ g ∈ o, g.isTrue = true) ∧ a.discard? action l = none) ∨
    ∃ guard, a.discard? action l =
        some ⟨l.name, some action, guard, [{ location := l.name }], none⟩ ∧
      (guard = none ∧ a.guardsAt action l.name = [] ∨
        ∃ g gs, guard = some { exp := .neg (gs.foldl .disj g) } ∧
          a.guardsAt action l.name = (g :: gs).map some) := by
  unfold discard?
  dsimp only
  split
  · rename_i hany
    obtain ⟨e, he, hu⟩ := List.any_eq_true.1 hany
    exact .inl ⟨⟨e.guardExp?, List.mem_map_of_mem he, Edge.isUnguarded_iff.1 hu⟩, rfl⟩
  · rename_i hany
    have hsome : ∀ o ∈ a.guardsAt action l.name, o.isSome = true := by
      intro o ho
      obtain ⟨e, he, rfl⟩ := List.mem_map.1 ho
      have hguarded := List.any_eq_false.1 (Bool.eq_false_iff.2 hany) e he
      rw [Edge.isUnguarded_iff] at hguarded
      cases hg : e.guardExp? with
      | none => simp [hg] at hguarded
      | some g => rfl
    -- every edge has a guard, so none is lost when the guards are collected
    have hguards : a.guardsAt action l.name =
        (((a.edgesWithAction action).filter (·.location = l.name)).filterMap (·.guardExp?)).map
          some := by
      rw [List.map_filterMap_some_eq_filter_map_isSome]
      exact (List.filter_eq_self.2 hsome).symm
    refine .inr ⟨_, rfl, ?_⟩
    rw [hguards]
    split
    · rename_i hnil
      exact .inl ⟨rfl, by rw [hnil]; rfl⟩
    · rename_i g gs hcons
      exact .inr ⟨g, gs, rfl, by rw [hcons]⟩

theorem covering_inputEnable {a : Automaton} {action : String} {l : Location}
    (hl : l ∈ a.locations) : Covering ((a.inputEnable action).guardsAt action l.name) := by
  have hold : a.guardsAt action l.name ⊆ (a.inputEnable action).guardsAt action l.name :=
    guardsAt_mono (List.subset_append_left _ _) action l.name
  rcases discard?_cases a action l with ⟨⟨o, ho, htrue⟩, -⟩ | ⟨guard, hd, hguard⟩
  · exact .always (hold ho) htrue
  · have hloop := List.mem_append_right a.edges (List.mem_filterMap.2 ⟨l, hl, hd⟩)
    have hnew : guard.map (·.exp) ∈ (a.inputEnable action).guardsAt action l.name :=
      mem_guardsAt.2 ⟨_, hloop, rfl, rfl, rfl⟩
    rcases hguard with ⟨rfl, -⟩ | ⟨g, gs, rfl, hall⟩
    · exact .always hnew (by simp)
    · refine .otherwise hnew fun x hx => hold ?_
      rw [hall]
      exact List.mem_map_of_mem hx

/-- A receiver of an event that is sent is ready for it everywhere. -/
theorem covering_foldl_enable {entries : List EventEntry} {x : EventEntry} (hx : x ∈ entries)
    (hs : x.isSent = true) {a : Automaton} (hr : a.name ∈ x.receivers) {l : Location}
    (hl : l ∈ a.locations) :
    Covering
      ((entries.foldl (fun a x => x.enable a) a).guardsAt (receiveLabel x.event) l.name) := by
  induction entries generalizing a with
  | nil => cases hx
  | cons y entries ih =>
    rcases List.mem_cons.1 hx with rfl | hx
    · have henable : x.enable a = a.inputEnable (receiveLabel x.event) := if_pos ⟨hs, hr⟩
      -- what comes after only adds edges
      obtain ⟨added, hlater⟩ := EventEntry.foldl_enable_eq entries (x.enable a)
      rw [List.foldl_cons, hlater, henable]
      exact (covering_inputEnable hl).mono (guardsAt_mono (List.subset_append_left _ _) _ _)
    · obtain ⟨added, hy⟩ := y.enable_eq a
      rw [List.foldl_cons, hy]
      exact ih hx hr hl

end Automaton

/-! ## Ready models -/

/-- Every automaton that takes part in a synchronization as a receiver of its event is covered
against it in all its locations. -/
def Model.Ready (m : Model) : Prop :=
  ∀ v ∈ m.system.syncs, ∀ event, v.result = some event →
    ∀ i : Nat, v.participants[i]? = some (some (receiveLabel event)) →
      ∃ a, m.automata[i]? = some a ∧
        ∀ l ∈ a.locations, Covering (a.guardsAt (receiveLabel event) l.name)

theorem Assembler.ready_synced (s : Assembler) (automata : List Automaton) :
    (s.synced automata).Ready := by
  intro v hv event hresult i hi
  simp only [synced, Model.synchronized, Model.withElements, automata_start_join,
    syncs_start_join, List.nil_append] at hv ⊢
  obtain ⟨x, hx, hv⟩ := List.mem_flatMap.1 hv
  obtain ⟨sender, hsender, rfl⟩ := List.mem_map.1 hv
  obtain rfl := Option.some.inj hresult
  simp only [List.map_map, List.getElem?_map, Option.map_eq_some_iff] at hi
  obtain ⟨a, ha, hpart⟩ := hi
  have hreceives : a.name ∈ x.receivers := by
    simp only [Function.comp_apply, EventEntry.part] at hpart
    split at hpart
    · exact absurd (Option.some.inj hpart) (sendLabel_ne_receiveLabel _ _)
    · split at hpart
      · assumption
      · contradiction
  have hsent : x.isSent = true := by
    simp [EventEntry.isSent, List.ne_nil_of_mem hsender]
  refine ⟨_, by rw [List.getElem?_map, ha]; rfl, fun l hl => ?_⟩
  obtain ⟨added, henabled⟩ :=
    EventEntry.foldl_enable_eq (EventTable.ofAutomata automata).entries a
  simp only [henabled] at hl
  exact Automaton.covering_foldl_enable hx hsent hreceives hl

/-! ## What the passes keep -/

theorem Automaton.guardsAt_pruned {a : Automaton} {actions : List String} {action : String}
    (h : a.isDropped actions action = false) (location : String) :
    (a.pruned actions).guardsAt action location = a.guardsAt action location := by
  rw [guardsAt, edgesWithAction_pruned h, guardsAt]

theorem Model.Ready.pruned {m : Model} (h : m.Ready) (actions : List String) :
    (m.pruned actions).Ready := by
  intro v hv event hresult i hi
  obtain ⟨hv, -⟩ := List.mem_filter.1 hv
  obtain ⟨w, hw, rfl⟩ := List.mem_map.1 hv
  obtain ⟨hentry, a, ha, hkept⟩ := Sync.getElem?_pruned hi
  obtain ⟨b, hb, hcover⟩ := h w hw event hresult i hentry
  obtain rfl := Option.some.inj (ha.symm.trans hb)
  refine ⟨a.pruned actions, by simp [Model.pruned, ha], fun l hl => ?_⟩
  rw [Automaton.guardsAt_pruned hkept]
  exact hcover l hl

theorem Automaton.guardsAt_expand {a : Automaton} {cap : Nat} (h : (a.expand cap).Succeeds)
    (action location : String) :
    (a.expand cap).state.guardsAt action location = a.guardsAt action location := by
  have hkeep : ∀ e : Edge, (e.expand cap).state.location = e.location ∧
      (e.expand cap).state.action = e.action ∧ (e.expand cap).state.guardExp? = e.guardExp? := by
    intro e
    obtain ⟨destinations, hstate⟩ := e.state_expand cap
    rw [hstate]
    exact ⟨rfl, rfl, rfl⟩
  rw [state_expand h]
  simp [guardsAt, edgesWithAction, List.filter_map, Function.comp_def, hkeep]

theorem Model.Ready.expand {m : Model} (h : m.Ready) {cap : Nat} (he : (m.expand cap).Succeeds) :
    (m.expand cap).state.Ready := by
  rw [state_expand he]
  intro v hv event hresult i hi
  obtain ⟨a, ha, hcover⟩ := h v hv event hresult i hi
  have hea := succeeds_expand.1 he a (List.mem_of_getElem? ha)
  refine ⟨(a.expand cap).state, by simp [ha], fun l hl => ?_⟩
  rw [Automaton.guardsAt_expand hea]
  rw [Automaton.state_expand hea] at hl
  exact hcover l hl

/-! ## Normal forms of covering guards -/

namespace Expr

theorem normalize_neg {scope : Scope} {e e' : Expr}
    (h : ((neg e).normalize scope).outcome = .ok e') :
    ∃ f, (e.normalize scope).outcome = .ok f ∧ e' = neg f := by
  rcases normalize_operator_eq_ok_iff.1 h with ⟨-, operands, hops, rfl⟩ | ⟨-, hop, -⟩
  · simp only [normalizeOperands, Report.outcome_bind, Report.outcome_pure, Report.outcome_ok,
      Except.bind_eq_ok_iff, Except.ok.injEq] at hops
    obtain ⟨f, hf, _, rfl, rfl⟩ := hops
    exact ⟨f, hf, rfl⟩
  · contradiction

theorem normalize_disj {scope : Scope} {e f e' : Expr}
    (h : ((disj e f).normalize scope).outcome = .ok e') :
    ∃ x y, (e.normalize scope).outcome = .ok x ∧ (f.normalize scope).outcome = .ok y ∧
      e' = disj x y := by
  rcases normalize_operator_eq_ok_iff.1 h with ⟨-, operands, hops, rfl⟩ | ⟨-, hop, -⟩
  · simp only [normalizeOperands, Report.outcome_bind, Report.outcome_pure, Report.outcome_ok,
      Except.bind_eq_ok_iff, Except.ok.injEq] at hops
    obtain ⟨x, hx, _, ⟨y, hy, _, rfl, rfl⟩, rfl⟩ := hops
    exact ⟨x, y, hx, hy, rfl⟩
  · contradiction

/-- A disjunction is normalized part by part. -/
theorem normalize_foldl_disj {scope : Scope} {g e' : Expr} {gs : List Expr}
    (h : ((gs.foldl disj g).normalize scope).outcome = .ok e') :
    ∃ (g' : Expr) (gs' : List Expr), e' = gs'.foldl disj g' ∧ (g.normalize scope).outcome = .ok g' ∧
      ∀ y ∈ gs', ∃ x ∈ gs, (x.normalize scope).outcome = .ok y := by
  induction gs generalizing g with
  | nil => exact ⟨e', [], rfl, h, by simp⟩
  | cons x gs ih =>
    obtain ⟨d, gs', rfl, hd, hgs⟩ := ih h
    obtain ⟨g', x', hg, hx, rfl⟩ := normalize_disj hd
    refine ⟨g', x' :: gs', rfl, hg, List.forall_mem_cons.2 ⟨⟨x, by simp, hx⟩, ?_⟩⟩
    intro y hy
    obtain ⟨z, hz, hzy⟩ := hgs y hy
    exact ⟨z, by simp [hz], hzy⟩

theorem isTrue_normalize {scope : Scope} {e e' : Expr} (h : (e.normalize scope).outcome = .ok e')
    (ht : e.isTrue = true) : e'.isTrue = true := by
  unfold isTrue at ht
  split at ht
  · simp only [normalize, Report.outcome_ok, Except.ok.injEq] at h
    rw [← h]
    rfl
  · contradiction

end Expr

/-- The guards and their negated disjunction are normalized alike. -/
theorem Covering.normalize {scope : Scope} {guards guards' : List (Option Expr)}
    (h : Covering guards)
    (hn : ∀ o ∈ guards, ∃ o' ∈ guards',
      Option.Rel (fun g g' => (g.normalize scope).outcome = .ok g') o o') :
    Covering guards' := by
  -- a guard and its copy under the negation have the same normal form
  have hsome : ∀ g g', (g.normalize scope).outcome = .ok g' → some g ∈ guards →
      some g' ∈ guards' := by
    intro g g' hg hmem
    obtain ⟨o, ho, hrel⟩ := hn _ hmem
    cases hrel with
    | some hg' =>
      obtain rfl := Except.ok.inj (hg.symm.trans hg')
      exact ho
  cases h with
  | @always o ho htrue =>
    obtain ⟨o', ho', hrel⟩ := hn o ho
    refine .always ho' ?_
    cases hrel with
    | none => simp
    | some hg =>
      rintro g' ⟨⟩
      exact Expr.isTrue_normalize hg (htrue _ rfl)
  | @otherwise g gs hneg hall =>
    obtain ⟨o', ho', hrel⟩ := hn _ hneg
    cases hrel with
    | some hg =>
      obtain ⟨d, hd, rfl⟩ := Expr.normalize_neg hg
      obtain ⟨g', gs', rfl, hg', hgs'⟩ := Expr.normalize_foldl_disj hd
      refine .otherwise ho' (List.forall_mem_cons.2 ⟨hsome g g' hg' (hall g (by simp)), ?_⟩)
      intro y hy
      obtain ⟨x, hx, hxy⟩ := hgs' y hy
      exact hsome x y hxy (hall x (by simp [hx]))

theorem Automaton.guardsAt_normalize {a : Automaton} {globals : Registry}
    (h : (a.normalize globals).Succeeds) {action location : String} {o : Option Expr}
    (ho : o ∈ a.guardsAt action location) :
    ∃ o' ∈ (a.normalize globals).state.guardsAt action location,
      Option.Rel (fun g g' => (g.normalize { locals := some a.locals, globals }).outcome = .ok g')
        o o' := by
  obtain ⟨e, he, hloc, hact, rfl⟩ := mem_guardsAt.1 ho
  have hne := succeeds_normalize.1 h e he
  refine ⟨_, mem_guardsAt.2 ⟨_, ?_, ?_, ?_, rfl⟩, Edge.guardExp?_normalize hne⟩
  · rw [state_normalize h]
    exact List.mem_map_of_mem he
  · obtain ⟨_, hstate⟩ := e.state_normalize { locals := some a.locals, globals }
    rw [hstate, ← hloc]
  · obtain ⟨_, hstate⟩ := e.state_normalize { locals := some a.locals, globals }
    rw [hstate, ← hact]

theorem Model.Ready.normalize {m : Model} (h : m.Ready) (hn : m.normalize.Succeeds) :
    m.normalize.state.Ready := by
  obtain ⟨properties, hstate⟩ := state_normalize hn
  rw [hstate]
  intro v hv event hresult i hi
  obtain ⟨a, ha, hcover⟩ := h v hv event hresult i hi
  have hna := automata_of_normalize hn a (List.mem_of_getElem? ha)
  refine ⟨(a.normalize m.globals).state, by simp [ha], fun l hl => ?_⟩
  rw [Automaton.state_normalize hna] at hl
  exact (hcover l hl).normalize fun o ho => Automaton.guardsAt_normalize hna ho

/-! ## Converted models -/

theorem Assembler.ready_of_convert {s : Assembler} {charts : List Chart} {capacity : Nat}
    {properties : List Property} {m : Model}
    (h : (s.convert charts capacity properties).outcome = .ok m) : m.Ready := by
  simp only [convert, Report.outcome_bind, Report.outcome_mapError, Report.outcome_note,
    Report.outcome_pure, Except.bind_eq_ok_iff, Except.mapError_eq_ok_iff,
    Attempt.toReport_eq_ok_iff, Except.ok.injEq] at h
  obtain ⟨m₁, hassemble, m₂, ⟨hnormalize, rfl⟩, _, -, rfl⟩ := h
  obtain ⟨-, -, hexpand, rfl⟩ := assemble_eq_ok_iff.1 hassemble
  have hready := ((s.ready_synced _).pruned _).expand hexpand
  -- properties play no part in being ready
  exact Model.Ready.normalize (fun v hv => hready v hv) hnormalize

/-- In a converted model no automaton blocks an event that it receives: wherever it is, and whatever
truth values the guards of its receiving edges have there, one of these edges is enabled. -/
theorem receiver_never_blocks (s : Assembler) (charts : List Chart) (capacity : Nat)
    (properties : List Property) (m : Model)
    (h : (s.convert charts capacity properties).outcome = .ok m)
    (v : Sync) (hv : v ∈ m.system.syncs) (event : String) (hresult : v.result = some event)
    (i : Nat) (hi : v.participants[i]? = some (some (receiveLabel event))) :
    ∃ a, m.automata[i]? = some a ∧ ∀ l ∈ a.locations, ∀ V : Valuation,
      (∀ e ∈ a.edges, e.location = l.name → e.action = some (receiveLabel event) →
        ∀ g ∈ e.guard, ∃ b, V.truth g.exp = some b) →
      ∃ e ∈ a.edges, e.location = l.name ∧ e.action = some (receiveLabel event) ∧
        ∀ g ∈ e.guard, V.truth g.exp = some true := by
  obtain ⟨a, ha, hcover⟩ := Assembler.ready_of_convert h v hv event hresult i hi
  refine ⟨a, ha, fun l hl V hb => ?_⟩
  obtain ⟨o, ho, htrue⟩ := (hcover l hl).exists_true V fun g hg => by
    obtain ⟨e, he, hloc, hact, hguard⟩ := Automaton.mem_guardsAt.1 hg
    obtain ⟨g', hg', rfl⟩ := Option.map_eq_some_iff.1 hguard
    exact hb e he hloc hact g' hg'
  obtain ⟨e, he, hloc, hact, rfl⟩ := Automaton.mem_guardsAt.1 ho
  exact ⟨e, he, hloc, hact, fun g hg => htrue g.exp (by rw [Edge.guardExp?, hg]; rfl)⟩

/-- The connectives as usual; nothing else is interpreted. -/
def logic : Interpretation Unit :=
  { listing with
    apply
      | .not, [(_, .bool b)] => .bool !b
      | .or, [(_, .bool b), (_, .bool d)] => .bool (b || d)
      | _, _ => .other () }

/-- The door is locked, and the code is wrong. -/
def lockedOut : Valuation :=
  logic.valuation (by simp [logic]) (by simp [logic]) fun
    | "code" => .array [.int 1, .int 0, .int 0]
    | "code_length_1" => .int 1
    | _ => .bool false

theorem receiver_never_blocks_door :
    ∃ m, (Assembler.convert {} [bell, door] 3 []).outcome = .ok m ∧
      ∃ a, m.automata[1]? = some a ∧
        ∃ e ∈ a.edges, e.location = "closed" ∧ e.action = some (receiveLabel "ring") ∧
          ∀ g ∈ e.guard, lockedOut.truth g.exp = some true := by
  have hrun : ((Assembler.convert {} [bell, door] 3 []).outcome.toOption.map fun m =>
      (m.system.syncs, m.automata[1]?.map fun a => (a.locations, a.edges.all fun e =>
        e.guard.all fun g => (lockedOut.truth g.exp).isSome))) =
      some ([⟨[some "ring_on_send", some "ring_on_receive"], some "ring", none⟩],
        some ([{ name := "closed" }, { name := "open" }], true)) := by
    decide +kernel
  obtain ⟨m, hm, hparts⟩ := Option.map_eq_some_iff.1 hrun
  obtain ⟨hsyncs, hauto⟩ := Prod.mk.inj hparts
  have hok := Except.toOption_eq_some_iff.1 hm
  obtain ⟨a, ha, hready⟩ := receiver_never_blocks {} [bell, door] 3 [] m hok
    ⟨[some "ring_on_send", some "ring_on_receive"], some "ring", none⟩ (by simp [hsyncs]) "ring" rfl
    1 rfl
  simp only [ha, Option.map_some, Option.some.injEq, Prod.mk.injEq] at hauto
  refine ⟨m, hok, a, ha, hready { name := "closed" } (by simp [hauto.1]) lockedOut ?_⟩
  intro e he _ _ g hg
  have hdefined := List.all_eq_true.1 hauto.2 e he
  rw [hg] at hdefined
  exact Option.isSome_iff_exists.1 (by simpa using hdefined)

end AutomataNet
