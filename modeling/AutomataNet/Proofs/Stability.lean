import AutomataNet.Proofs.Declarations
import AutomataNet.Proofs.Normalization
/-!
# Normalizing once is enough

A normal form is its own normal form, and an expression that has none is left as it is. So a second
run over a model finds nothing to do, and ends where and as the first one did. `Attempt.Settles`
says so of any operation, and each way to build operations from others keeps it.
-/

namespace AutomataNet

/-! ## Operations that settle at once -/

/-- A slot of a state, whose content can be replaced. -/
structure Slot (τ σ : Type) where
  get : τ → σ
  set : τ → σ → τ
  get_set (t : τ) (s : σ) : get (set t s) = s := by intros; rfl
  set_set (t : τ) (s s' : σ) : set (set t s) s' = set t s' := by intros; rfl
  set_get (t : τ) : set t (get t) = t := by intros; rfl

namespace Attempt

variable {σ τ ε ε' α β : Type}

/-- Running the operation again changes nothing, and ends in the same way. -/
structure Settles (f : σ → Attempt σ ε α) (s : σ) : Prop where
  state : (f (f s).state).state = (f s).state
  outcome : (f (f s).state).outcome = (f s).outcome

/-- An operation on a slot; the rest of the state tells it what to do. -/
def onSlot (p : Slot τ σ) (f : τ → σ → Attempt σ ε α) (t : τ) : Attempt τ ε α :=
  (f t (p.get t)).mapState (p.set t)

theorem settles_replace {f : σ → Report ε σ} {s : σ}
    (h : ∀ s', (f s).outcome = .ok s' → (f s').outcome = .ok s') : Settles (replace f) s := by
  cases hs : (f s).outcome with
  | error e =>
    have hrun : (replace f s).state = s := by simp [replace, hs]
    exact ⟨by rw [hrun, hrun], by rw [hrun]⟩
  | ok s' =>
    have hagain := h s' hs
    exact ⟨by simp [replace, hs, hagain], by simp [replace, hs, hagain]⟩

theorem settles_onOption {f : σ → Attempt σ ε Unit} {o : Option σ} (h : ∀ s ∈ o, Settles f s) :
    Settles (onOption f) o := by
  cases o with
  | none => exact ⟨rfl, rfl⟩
  | some s =>
    have hs := h s rfl
    exact ⟨congrArg some hs.state, hs.outcome⟩

/-- After a failure the items before it have settled, and the item itself fails again. -/
theorem settles_onEach {f : σ → Attempt σ ε α} {ss : List σ} (h : ∀ s ∈ ss, Settles f s) :
    Settles (onEach f) ss := by
  induction ss with
  | nil => exact ⟨rfl, rfl⟩
  | cons s ss ih =>
    obtain ⟨hs, hss⟩ := List.forall_mem_cons.1 h
    cases hrun : (f s).outcome with
    | error e =>
      have hagain : (f (f s).state).outcome = .error e := hs.outcome.trans hrun
      exact ⟨by simp [onEach, hrun, hagain, hs.state], by simp [onEach, hrun, hagain]⟩
    | ok a =>
      have hagain : (f (f s).state).outcome = .ok a := hs.outcome.trans hrun
      exact ⟨by simp [onEach, hrun, hagain, hs.state, (ih hss).state],
        by simp [onEach, hrun, hagain, (ih hss).outcome]⟩

theorem Settles.mapResult {f : σ → Attempt σ ε α} {s : σ} (h : Settles f s) (g : α → β) :
    Settles (fun s => (f s).mapResult g) s :=
  ⟨h.state, congrArg (g <$> ·) h.outcome⟩

theorem Settles.mapError {f : σ → Attempt σ ε α} {s : σ} (h : Settles f s) (g : ε → ε') :
    Settles (fun s => (f s).mapError g) s :=
  ⟨h.state, congrArg (Except.mapError g) h.outcome⟩

theorem settles_onSlot (p : Slot τ σ) (f : τ → σ → Attempt σ ε α) {t : τ}
    (hf : ∀ s, f (p.set t s) = f t) (h : Settles (f t) (p.get t)) : Settles (onSlot p f) t := by
  constructor
  · simp only [onSlot, Attempt.mapState, p.get_set, p.set_set, hf, h.state]
  · simp only [onSlot, Attempt.mapState, p.get_set, hf, h.outcome]

/-- What has settled stays so as long as the slot keeps its content. -/
theorem Settles.of_get_eq {p : Slot τ σ} {f : τ → σ → Attempt σ ε α} {t u : τ}
    (h : Settles (onSlot p f) t) (hf : f u = f (onSlot p f t).state)
    (hu : p.get u = p.get (onSlot p f t).state) :
    (onSlot p f u).state = u ∧ (onSlot p f u).outcome = (onSlot p f t).outcome := by
  have hcontent : (f u (p.get u)).state = p.get u := by
    have := congrArg p.get h.state
    rw [hf, hu]
    simpa only [onSlot, Attempt.mapState, p.get_set] using this
  constructor
  · simp only [onSlot, Attempt.mapState, hcontent, p.set_get]
  · rw [← h.outcome]
    simp only [onSlot, Attempt.mapState, hf, hu]

/-- One operation after another; the second one does not disturb what the first one has settled. -/
theorem settles_andThen {f : σ → Attempt σ ε α} {g : σ → Attempt σ ε β} {s : σ} (hf : Settles f s)
    (hg : Settles g (f s).state)
    (hkeep : (f (g (f s).state).state).state = (g (f s).state).state ∧
      (f (g (f s).state).state).outcome = (f s).outcome) :
    Settles (fun s => (f s).andThen fun s _ => g s) s := by
  cases hrun : (f s).outcome with
  | error e =>
    have hagain : (f (f s).state).outcome = .error e := hf.outcome.trans hrun
    exact ⟨by simp [andThen, hrun, hagain, hf.state], by simp [andThen, hrun, hagain]⟩
  | ok a =>
    have hagain := hkeep.2.trans hrun
    exact ⟨by simp [andThen, hrun, hagain, hkeep.1, hg.state],
      by simp [andThen, hrun, hagain, hkeep.1, hg.outcome]⟩

end Attempt

/-! ## Expressions -/

/-- The companion of an array is no array itself. -/
def Scope.PlainLengths (scope : Scope) : Prop :=
  ∀ name v w, scope.find? name = some v → v.isArray = true → v.capacities.isSome = true →
    scope.find? (lengthName name 1) = some w → w.isArray = false

namespace Expr

/-- Normalizing neither makes arrays nor removes them. -/
theorem isArray_normalize {scope : Scope} {e e' : Expr} (h : (e.normalize scope).outcome = .ok e') :
    e'.isArray scope = e.isArray scope := by
  rcases root_normalize h with
    rfl | ⟨_, _, _, _, _, _, rfl, rfl⟩ | ⟨_, _, _, _, rfl, rfl⟩ <;> rfl

theorem hasArrayOperand_normalizeOperands {scope : Scope} {op : Op}
    {operands operands' : List (String × Expr)}
    (h : (normalizeOperands scope operands).outcome = .ok operands') :
    hasArrayOperand scope op operands' = hasArrayOperand scope op operands := by
  induction operands generalizing operands' with
  | nil =>
    obtain rfl := Except.ok.inj h
    rfl
  | cons x xs ih =>
    simp only [normalizeOperands, Report.outcome_bind, Report.outcome_pure,
      Except.bind_eq_ok_iff, Except.ok.injEq] at h
    obtain ⟨y, hy, ys, hys, rfl⟩ := h
    have hrest := ih hys
    simp only [hasArrayOperand, List.any_cons, isArray_normalize hy] at hrest ⊢
    rw [hrest]

/-- The expression is its own normal form. -/
def IsNormal (scope : Scope) (e : Expr) : Prop := (e.normalize scope).outcome = .ok e

theorem normalizeOperands_of_isNormal {scope : Scope} {operands : List (String × Expr)}
    (h : ∀ p ∈ operands, p.2.IsNormal scope) :
    (normalizeOperands scope operands).outcome = .ok operands := by
  induction operands with
  | nil => rfl
  | cons x xs ih =>
    obtain ⟨hx, hxs⟩ := List.forall_mem_cons.1 h
    simp only [normalizeOperands, Report.outcome_bind, Report.outcome_pure, Except.bind_eq_ok_iff]
    exact ⟨_, hx, _, ih hxs, rfl⟩

/-- The operands of the operator are normal, and no arrays. -/
def IsScalarOperator (scope : Scope) (e : Expr) : Prop :=
  ∃ op operands c, e = .operator op operands c ∧
    ∀ p ∈ operands, p.2.IsNormal scope ∧ p.2.isArray scope = false

namespace IsScalarOperator

variable {scope : Scope} {e : Expr}

theorem withComment (h : e.IsScalarOperator scope) (c : Option String) :
    (e.withComment c).IsScalarOperator scope := by
  obtain ⟨op, operands, _, rfl, hops⟩ := h
  exact ⟨op, operands, c, rfl, hops⟩

theorem isNormal (h : e.IsScalarOperator scope) : e.IsNormal scope := by
  obtain ⟨op, operands, c, rfl, hops⟩ := h
  refine normalize_operator_eq_ok_iff.2 (.inl ⟨?_, _, ?_, rfl⟩)
  · rw [hasArrayOperand, List.any_eq_false]
    intro p hp
    simp [(hops p hp).2]
  · exact normalizeOperands_of_isNormal fun p hp => (hops p hp).1

theorem isArray (h : e.IsScalarOperator scope) : e.isArray scope = false := by
  obtain ⟨op, operands, c, rfl, -⟩ := h
  rfl

end IsScalarOperator

theorem isScalarOperator_binary {scope : Scope} (op : Op) {l r : Expr}
    (hl : l.IsNormal scope ∧ l.isArray scope = false)
    (hr : r.IsNormal scope ∧ r.isArray scope = false) :
    (binary op l r).IsScalarOperator scope :=
  ⟨op, _, none, rfl, by simpa using ⟨hl, hr⟩⟩

/-- The array whose cell is accessed does not count as an operand. -/
theorem isNormal_access (scope : Scope) (name : String) (n : Int64) :
    (access (var name) (ofInt n)).IsNormal scope := by
  refine normalize_operator_eq_ok_iff.2 (.inl ⟨?_, _, rfl, rfl⟩)
  simp [hasArrayOperand, ofInt, lit, isArray]

/-- A conjunction of cell tests with one more. -/
theorem IsScalarOperator.conj_cell {scope : Scope} {e x : Expr} (he : e.IsScalarOperator scope)
    (hx : x.literal?.isSome = true) (array : String) (n : Int64) :
    (conj e (equal x (access (var array) (ofInt n)))).IsScalarOperator scope := by
  have hliteral : x.IsNormal scope ∧ x.isArray scope = false := by
    cases x <;> simp [literal?] at hx
    exact ⟨rfl, rfl⟩
  have htest : (equal x (access (var array) (ofInt n))).IsScalarOperator scope :=
    isScalarOperator_binary .eq hliteral ⟨isNormal_access scope array n, rfl⟩
  exact isScalarOperator_binary .and ⟨he.isNormal, he.isArray⟩ ⟨htest.isNormal, htest.isArray⟩

/-- What replaces a comparison is in normal form, provided that the length is no array. -/
theorem isScalarOperator_comparison {scope : Scope} {array : String} {elements : List Expr}
    (hlength : (var (lengthName array 1)).isArray scope = false)
    (hl : ∀ x ∈ elements, x.literal?.isSome = true) :
    (comparison array elements).IsScalarOperator scope := by
  refine List.foldlRecOn _ _ (isScalarOperator_binary .eq ⟨rfl, hlength⟩ ⟨rfl, rfl⟩) ?_
  rintro e he ⟨x, i⟩ hx
  exact he.conj_cell (hl x (List.mem_of_getElem? (List.mk_mem_zipIdx_iff_getElem?.1 hx))) array _

end Expr

theorem Scope.PlainLengths.isArray_length {scope : Scope} (h : scope.PlainLengths) {array : String}
    (hv : scope.IsVector array) : (Expr.var (lengthName array 1)).isArray scope = false := by
  obtain ⟨v, capacity, hfind, harray, hcapacities⟩ := hv
  show (scope.find? (lengthName array 1)).any (·.isArray) = false
  cases hw : scope.find? (lengthName array 1) with
  | none => rfl
  | some w => exact h array v w hfind harray (by rw [hcapacities]; rfl) hw

namespace Expr

variable {scope : Scope}

mutual

/-- A normal form is its own normal form. -/
theorem isNormal_of_normalize (hs : scope.PlainLengths) :
    ∀ {e e' : Expr}, (e.normalize scope).outcome = .ok e' → e'.IsNormal scope
  | .literal v c, e', h | .identifier name c, e', h | .arrayValue es c, e', h => by
    obtain rfl := Except.ok.inj h
    rfl
  | .distribution name args c, e', h => by
    simp only [normalize, Report.outcome_bind, Report.outcome_pure, Except.bind_eq_ok_iff,
      Except.ok.injEq] at h
    obtain ⟨args', hargs, rfl⟩ := h
    simp only [IsNormal, normalize, Report.outcome_bind, Report.outcome_pure,
      Except.bind_eq_ok_iff]
    exact ⟨args', normalizeList_normalizeList hs hargs, rfl⟩
  | .operator op operands c, e', h => by
    rcases normalize_operator_eq_ok_iff.1 h with
      ⟨hno, operands', hops, rfl⟩ | ⟨-, rfl, e₀, he, rfl⟩
    · -- the node is kept, and again, as the operands are arrays or not as before
      refine normalize_operator_eq_ok_iff.2 (.inl ⟨?_, operands', ?_, rfl⟩)
      · rw [hasArrayOperand_normalizeOperands hops, hno]
      · exact normalizeOperands_normalizeOperands hs hops
    · obtain ⟨array, elements, -, hv, -, hl, rfl⟩ := expandComparison_eq_ok_iff.1 he
      exact ((isScalarOperator_comparison (hs.isArray_length hv) hl).withComment c).isNormal

theorem normalizeList_normalizeList (hs : scope.PlainLengths) :
    ∀ {es es' : List Expr}, (normalizeList scope es).outcome = .ok es' →
      (normalizeList scope es').outcome = .ok es'
  | [], es', h => by
    obtain rfl := Except.ok.inj h
    rfl
  | e :: es, es', h => by
    simp only [normalizeList, Report.outcome_bind, Report.outcome_pure, Except.bind_eq_ok_iff,
      Except.ok.injEq] at h
    obtain ⟨x, hx, xs, hxs, rfl⟩ := h
    simp only [normalizeList, Report.outcome_bind, Report.outcome_pure, Except.bind_eq_ok_iff]
    exact ⟨x, isNormal_of_normalize hs hx, xs, normalizeList_normalizeList hs hxs, rfl⟩

theorem normalizeOperands_normalizeOperands (hs : scope.PlainLengths) :
    ∀ {es es' : List (String × Expr)}, (normalizeOperands scope es).outcome = .ok es' →
      (normalizeOperands scope es').outcome = .ok es'
  | [], es', h => by
    obtain rfl := Except.ok.inj h
    rfl
  | (role, e) :: es, es', h => by
    simp only [normalizeOperands, Report.outcome_bind, Report.outcome_pure, Except.bind_eq_ok_iff,
      Except.ok.injEq] at h
    obtain ⟨x, hx, xs, hxs, rfl⟩ := h
    simp only [normalizeOperands, Report.outcome_bind, Report.outcome_pure, Except.bind_eq_ok_iff]
    exact ⟨x, isNormal_of_normalize hs hx, xs, normalizeOperands_normalizeOperands hs hxs, rfl⟩

end

end Expr

/-- The top operator of a property is kept in any case. -/
theorem Property.normalizeExpr_normalizeExpr {scope : Scope} (hs : scope.PlainLengths) {e e' : Expr}
    (h : (normalizeExpr scope e).outcome = .ok e') : (normalizeExpr scope e').outcome = .ok e' := by
  cases e with
  | literal v c | identifier name c | arrayValue es c =>
    obtain rfl := Except.ok.inj h
    rfl
  | distribution name args c =>
    have hnormal : e'.IsNormal scope := Expr.isNormal_of_normalize hs h
    simp only [normalizeExpr, Expr.normalize, Report.outcome_bind, Report.outcome_pure,
      Except.bind_eq_ok_iff, Except.ok.injEq] at h
    obtain ⟨args', -, rfl⟩ := h
    exact hnormal
  | operator op operands c =>
    simp only [normalizeExpr, Report.outcome_bind, Report.outcome_pure, Except.bind_eq_ok_iff,
      Except.ok.injEq] at h
    obtain ⟨operands', hops, rfl⟩ := h
    simp only [normalizeExpr, Report.outcome_bind, Report.outcome_pure, Except.bind_eq_ok_iff]
    exact ⟨operands', Expr.normalizeOperands_normalizeOperands hs hops, rfl⟩

/-! ## Models -/

def Guard.expSlot : Slot Guard Expr where
  get := exp
  set g exp := { g with exp }

def Probability.expSlot : Slot Probability Expr where
  get := exp
  set p exp := { p with exp }

def Assignment.valueSlot : Slot Assignment Expr where
  get := value
  set a value := { a with value }

def Destination.probabilitySlot : Slot Destination (Option Probability) where
  get := probability
  set d probability := { d with probability }

def Destination.assignmentsSlot : Slot Destination (List Assignment) where
  get := assignments
  set d assignments := { d with assignments }

def Edge.guardSlot : Slot Edge (Option Guard) where
  get := guard
  set e guard := { e with guard }

def Edge.destinationsSlot : Slot Edge (List Destination) where
  get := destinations
  set e destinations := { e with destinations }

def Automaton.edgesSlot : Slot Automaton (List Edge) where
  get := edges
  set a edges := { a with edges }

def Property.expressionSlot : Slot Property Expr where
  get := expression
  set p expression := { p with expression }

def Model.automataSlot : Slot Model (List Automaton) where
  get := automata
  set m automata := { m with automata }

def Model.propertiesSlot : Slot Model (List Property) where
  get := properties
  set m properties := { m with properties }

section

open Attempt

variable {scope : Scope} (hs : scope.PlainLengths)

include hs

theorem settles_normalizeSlot {τ : Type} (p : Slot τ Expr) (t : τ) :
    Settles (onSlot p fun _ => replace (Expr.normalize scope)) t :=
  settles_onSlot p _ (fun _ => rfl) (settles_replace fun _ => Expr.isNormal_of_normalize hs)

theorem Destination.settles_normalize (d : Destination) :
    Settles (Destination.normalize scope) d := by
  have hp : Settles (onSlot probabilitySlot fun _ => onOption (Probability.normalize scope)) d :=
    settles_onSlot _ _ (fun _ => rfl)
      (settles_onOption fun p _ => settles_normalizeSlot hs Probability.expSlot p)
  have ha (d : Destination) : Settles (onSlot assignmentsSlot fun _ as =>
      (onEach (Assignment.normalize scope) as).mapResult fun _ => ()) d :=
    settles_onSlot _ _ (fun _ => rfl)
      ((settles_onEach fun a _ => settles_normalizeSlot hs Assignment.valueSlot a).mapResult _)
  exact settles_andThen hp (ha _) (hp.of_get_eq rfl rfl)

theorem Edge.settles_normalize (e : Edge) : Settles (Edge.normalize scope) e := by
  have hg : Settles (onSlot guardSlot fun _ => onOption (Guard.normalize scope)) e :=
    settles_onSlot _ _ (fun _ => rfl)
      (settles_onOption fun g _ => settles_normalizeSlot hs Guard.expSlot g)
  have hd (e : Edge) : Settles (onSlot destinationsSlot fun _ ds =>
      (onEach (Destination.normalize scope) ds).mapResult fun _ => ()) e :=
    settles_onSlot _ _ (fun _ => rfl)
      ((settles_onEach fun d _ => Destination.settles_normalize hs d).mapResult _)
  exact settles_andThen hg (hd _) (hg.of_get_eq rfl rfl)

end

open Attempt

theorem Automaton.settles_normalize {globals : Registry} {a : Automaton}
    (hs : Scope.PlainLengths { locals := some a.locals, globals }) :
    Settles (Automaton.normalize globals) a := by
  have hedges : Settles (onEach (Edge.normalize { locals := some a.locals, globals })) a.edges :=
    settles_onEach fun e _ => Edge.settles_normalize hs e
  exact settles_onSlot edgesSlot
    (fun a edges => ((onEach (Edge.normalize { locals := some a.locals, globals }) edges).mapResult
      fun _ => ()).mapError (NormalizationError.inAutomaton a.name))
    (fun _ => rfl) ((hedges.mapResult _).mapError _)

theorem Property.settles_normalize {globals : Registry} (hs : Scope.PlainLengths { globals })
    (p : Property) : Settles (Property.normalize globals) p := by
  have hexpr : Settles (replace (normalizeExpr { globals })) p.expression :=
    settles_replace fun _ => normalizeExpr_normalizeExpr hs
  exact settles_onSlot expressionSlot
    (fun p e => (replace (normalizeExpr { globals }) e).mapError
      (NormalizationError.inProperty p.name))
    (fun _ => rfl) (hexpr.mapError _)

namespace Model

/-- No companion of an array is an array, neither for the automata nor for the properties. -/
structure PlainLengths (m : Model) : Prop where
  automata : ∀ a ∈ m.automata, Scope.PlainLengths { locals := some a.locals, globals := m.globals }
  properties : Scope.PlainLengths { globals := m.globals }

/-- Normalizing a model a second time leaves it as it is, and has the same result. If the first run
fails, so does the second, in the same place and with the same error. -/
theorem normalize_idempotent (m : Model) (h : m.PlainLengths) :
    m.normalize.state.normalize.state = m.normalize.state ∧
      m.normalize.state.normalize.outcome = m.normalize.outcome := by
  have ha : Settles (onSlot automataSlot fun m as =>
      (onEach (Automaton.normalize m.globals) as).mapResult fun _ => ()) m :=
    settles_onSlot _ _ (fun _ => rfl)
      ((settles_onEach fun a ha => Automaton.settles_normalize (h.automata a ha)).mapResult _)
  have hp : Settles (onSlot propertiesSlot fun m ps =>
      (onEach (Property.normalize m.globals) ps).mapResult fun _ => ()) m.normalizeAutomata.state :=
    settles_onSlot _ _ (fun _ => rfl)
      ((settles_onEach fun p _ => Property.settles_normalize h.properties p).mapResult _)
  have hall := settles_andThen ha hp (ha.of_get_eq rfl rfl)
  exact ⟨hall.state, hall.outcome⟩

/-- Room for three books. The second guard takes the books for a number. -/
def shelf : Model where
  name := "library"
  globals := .ofList [
    { name := "books", type := .array (.basic .int), capacities := some [3] },
    { name := "books_length_1", type := .boundedInt 0 3 }]
  automata := [
    { Automaton.single "shelf" "here" with
      edges := [
        { location := "here"
          guard := some
            { exp := .equal (.var "books") (.arrayValue [.ofInt 7] none), comment := some "one" }
          destinations := [] },
        { location := "here"
          guard := some { exp := .binary .plus (.var "books") (.ofInt 1) }
          destinations := [] }] }]

theorem shelf_plainLengths : shelf.PlainLengths := by
  have hglobals : ∀ name v w, shelf.globals.find? name = some v → v.isArray = true →
      shelf.globals.find? (lengthName name 1) = some w → w.isArray = false := by
    intro name v w hv ha hw
    obtain rfl : name = "books" := by
      obtain ⟨hmem, rfl⟩ := Registry.find?_eq_some_iff.1 hv
      rcases List.mem_pair.1 hmem with rfl | rfl
      · rfl
      · cases ha
    obtain rfl := Option.some.inj hw
    rfl
  refine ⟨fun a ha name v w hv harray _ hw => ?_, fun name v w hv harray _ hw => ?_⟩
  · obtain rfl := List.mem_singleton.1 ha
    exact hglobals name v w hv harray hw
  · exact hglobals name v w hv harray hw

/-- The first guard is replaced, the second one is why the run fails, and so it stays. -/
theorem normalize_idempotent_shelf :
    shelf.normalize.outcome = .error (.inAutomaton "shelf" (.arrayOperand .plus)) ∧
      (shelf.normalize.state.automata.flatMap (·.edges)).map (·.guardExp?) =
        [some (comparison "books" [.ofInt 7]), some (.binary .plus (.var "books") (.ofInt 1))] ∧
      shelf.normalize.state.normalize.state = shelf.normalize.state ∧
      shelf.normalize.state.normalize.outcome = shelf.normalize.outcome :=
  ⟨rfl, rfl, normalize_idempotent shelf shelf_plainLengths⟩

end Model

end AutomataNet
