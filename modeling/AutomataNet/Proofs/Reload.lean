import AutomataNet.Proofs.Documents
import AutomataNet.Proofs.Stability
/-!
# Reloading

A model in normal form compares no arrays any more, so it is in normal form also where the
capacities of its arrays are not known. This is what a model is like once it was written and read
again: normalizing it leaves it as it is (`reload_normalized`).
-/

namespace AutomataNet

/-! ## Operations with nothing left to do -/

namespace Attempt

variable {σ τ υ ε α β : Type}

/-- The operation succeeds and changes nothing. -/
def Keeps (f : σ → Attempt σ ε α) (s : σ) : Prop := (f s).Succeeds ∧ (f s).state = s

namespace Keeps

variable {f : σ → Attempt σ ε α} {s : σ}

theorem mapResult (h : Keeps f s) (g : α → β) : Keeps (fun s => (f s).mapResult g) s :=
  ⟨succeeds_mapResult.2 h.1, h.2⟩

theorem onSlot {p : Slot τ σ} {t : τ} (h : Keeps f (p.get t)) : Keeps (onSlot p fun _ => f) t :=
  ⟨h.1, (congrArg (p.set t) h.2).trans (p.set_get t)⟩

theorem andThen {g : σ → Attempt σ ε β} (hf : Keeps f s) (hg : Keeps g s) :
    Keeps (fun s => (f s).andThen fun s _ => g s) s := by
  obtain ⟨⟨a, ha⟩, hstate⟩ := hf
  obtain ⟨hout, hst⟩ := andThen_eq_of_ok ha fun s _ => g s
  rw [hstate] at hout hst
  obtain ⟨⟨b, hb⟩, hgs⟩ := hg
  exact ⟨⟨b, hout.trans hb⟩, hst.trans hgs⟩

end Keeps

theorem keeps_onEach {f : σ → Attempt σ ε α} {ss : List σ} (h : ∀ s ∈ ss, Keeps f s) :
    Keeps (onEach f) ss := by
  refine ⟨succeeds_onEach.2 fun s hs => (h s hs).1, ?_⟩
  rw [state_onEach fun s hs => (h s hs).1]
  exact (List.map_congr_left fun s hs => (h s hs).2).trans (List.map_id' ss)

/-- Where `f` succeeds, it leaves nothing to do for `f'`. -/
def Prepares (f f' : σ → Attempt σ ε α) (s : σ) : Prop := (f s).Succeeds → Keeps f' (f s).state

theorem prepares_replace {f f' : σ → Report ε σ} {s : σ}
    (h : ∀ s', (f s).outcome = .ok s' → (f' s').outcome = .ok s') :
    Prepares (replace f) (replace f') s := by
  intro hs
  have hagain := h _ (succeeds_replace hs)
  exact ⟨⟨(), by rw [replace, hagain]⟩, by rw [replace, hagain]⟩

theorem prepares_onOption {f f' : σ → Attempt σ ε Unit} {o : Option σ}
    (h : ∀ s ∈ o, Prepares f f' s) : Prepares (onOption f) (onOption f') o := by
  cases o with
  | none => exact fun _ => ⟨⟨(), rfl⟩, rfl⟩
  | some s =>
    intro hs
    obtain ⟨hok, hstate⟩ := h s rfl hs
    exact ⟨hok, congrArg some hstate⟩

theorem prepares_onEach {f f' : σ → Attempt σ ε α} {ss : List σ}
    (h : ∀ s ∈ ss, Prepares f f' s) : Prepares (onEach f) (onEach f') ss := by
  intro hs
  rw [succeeds_onEach] at hs
  rw [state_onEach hs]
  exact keeps_onEach (List.forall_mem_map.2 fun s hmem => h s hmem (hs s hmem))

theorem Prepares.mapResult {f f' : σ → Attempt σ ε α} {s : σ} (h : Prepares f f' s) (g : α → β) :
    Prepares (fun s => (f s).mapResult g) (fun s => (f' s).mapResult g) s :=
  fun hs => (h (succeeds_mapResult.1 hs)).mapResult g

theorem Prepares.onSlot {f f' : σ → Attempt σ ε α} {p : Slot τ σ} {t : τ}
    (h : Prepares f f' (p.get t)) :
    Prepares (Attempt.onSlot p fun _ => f) (Attempt.onSlot p fun _ => f') t := by
  intro hs
  refine Keeps.onSlot ?_
  rw [Attempt.onSlot, mapState, p.get_set]
  exact h hs

/-- Two operations on slots that have nothing to do with each other. -/
theorem Prepares.andThen {f f' : σ → Attempt σ ε α} {g g' : υ → Attempt υ ε β} {p : Slot τ σ}
    {q : Slot τ υ} {t : τ} (hpq : ∀ t y, p.get (q.set t y) = p.get t)
    (hqp : ∀ t x, q.get (p.set t x) = q.get t) (hf : Prepares f f' (p.get t))
    (hg : Prepares g g' (q.get t)) :
    Prepares
      (fun t => (Attempt.onSlot p (fun _ => f) t).andThen fun t _ =>
        Attempt.onSlot q (fun _ => g) t)
      (fun t => (Attempt.onSlot p (fun _ => f') t).andThen fun t _ =>
        Attempt.onSlot q (fun _ => g') t) t := by
  intro hs
  obtain ⟨a, ha, hgs⟩ := succeeds_andThen.1 hs
  have hstate := (andThen_eq_of_ok ha fun t _ => Attempt.onSlot q (fun _ => g) t).2
  simp only [Attempt.onSlot, mapState, hqp] at hgs hstate
  -- each slot holds what its own operation has put there
  refine Keeps.andThen (Keeps.onSlot ?_) (Keeps.onSlot ?_)
  · simp only [Attempt.onSlot, mapState, hstate, hpq, p.get_set]
    exact hf ⟨a, ha⟩
  · simp only [Attempt.onSlot, mapState, hstate, q.get_set]
    exact hg hgs

end Attempt

/-! ## Normal forms without capacities -/

/-- The same names are those of arrays. -/
def Scope.SameArrays (scope scope' : Scope) : Prop :=
  ∀ name, (scope'.find? name).any (·.isArray) = (scope.find? name).any (·.isArray)

/-- A comparison of arrays is replaced by something else. -/
theorem comparison_ne_of_compares {array : String} {elements : List Expr}
    {operands : List (String × Expr)} (h : Compares array elements operands) (c d : Option String) :
    (comparison array elements).withComment c ≠ .operator .eq operands d := by
  unfold comparison
  rcases List.eq_nil_or_concat elements.zipIdx with hz | ⟨l, ⟨e, i⟩, hz⟩
  · rw [hz]
    cases h <;> simp [Expr.withComment, Expr.equal, Expr.binary, Expr.var, Expr.ofInt, Expr.lit]
  · rw [hz, List.concat_eq_append, List.foldl_append]
    simp [Expr.withComment, Expr.conj, Expr.binary]

namespace Expr

variable {scope scope' : Scope}

theorem hasArrayOperand_of_sameArrays (h : scope.SameArrays scope') (op : Op)
    (operands : List (String × Expr)) :
    hasArrayOperand scope' op operands = hasArrayOperand scope op operands := by
  have harray (e : Expr) : e.isArray scope' = e.isArray scope := by
    cases e with
    | identifier name c => exact h name
    | literal | operator | arrayValue | distribution => rfl
  simp only [hasArrayOperand, harray]

mutual

/-- What is in normal form has no array among its operands, so capacities are never asked for. -/
theorem IsNormal.of_sameArrays (h : scope.SameArrays scope') :
    ∀ {e : Expr}, e.IsNormal scope → e.IsNormal scope'
  | .literal .., _ | .identifier .., _ | .arrayValue .., _ => rfl
  | .distribution name args c, hn => by
    simp only [IsNormal, normalize, Report.outcome_bind, Report.outcome_pure, Except.bind_eq_ok_iff,
      Except.ok.injEq] at hn ⊢
    obtain ⟨args', hargs, heq⟩ := hn
    obtain ⟨-, rfl, -⟩ := distribution.inj heq.symm
    exact ⟨args, normalizeList_of_sameArrays h hargs, rfl⟩
  | .operator op operands c, hn => by
    rcases normalize_operator_eq_ok_iff.1 hn with
      ⟨hno, operands', hops, heq⟩ | ⟨-, rfl, e', he', heq⟩
    · obtain ⟨-, rfl, -⟩ := operator.inj heq.symm
      refine normalize_operator_eq_ok_iff.2 (.inl ⟨?_, operands, ?_, rfl⟩)
      · rw [hasArrayOperand_of_sameArrays h, hno]
      · exact normalizeOperands_of_sameArrays h hops
    · -- a comparison that is still there would have to be its own replacement
      obtain ⟨array, elements, hc, -, -, -, rfl⟩ := expandComparison_eq_ok_iff.1 he'
      exact absurd heq (comparison_ne_of_compares hc c c)

theorem normalizeList_of_sameArrays (h : scope.SameArrays scope') :
    ∀ {es : List Expr}, (normalizeList scope es).outcome = .ok es →
      (normalizeList scope' es).outcome = .ok es
  | [], _ => rfl
  | e :: es, hn => by
    simp only [normalizeList, Report.outcome_bind, Report.outcome_pure, Except.bind_eq_ok_iff,
      Except.ok.injEq] at hn ⊢
    obtain ⟨x, hx, xs, hxs, heq⟩ := hn
    obtain ⟨rfl, rfl⟩ := List.cons.inj heq.symm
    exact ⟨e, IsNormal.of_sameArrays h hx, es, normalizeList_of_sameArrays h hxs, rfl⟩

theorem normalizeOperands_of_sameArrays (h : scope.SameArrays scope') :
    ∀ {es : List (String × Expr)}, (normalizeOperands scope es).outcome = .ok es →
      (normalizeOperands scope' es).outcome = .ok es
  | [], _ => rfl
  | (role, e) :: es, hn => by
    simp only [normalizeOperands, Report.outcome_bind, Report.outcome_pure, Except.bind_eq_ok_iff,
      Except.ok.injEq] at hn ⊢
    obtain ⟨x, hx, xs, hxs, heq⟩ := hn
    obtain ⟨hp, rfl⟩ := List.cons.inj heq.symm
    obtain ⟨-, rfl⟩ := Prod.mk.inj hp
    exact ⟨e, IsNormal.of_sameArrays h hx, es, normalizeOperands_of_sameArrays h hxs, rfl⟩

end

end Expr

/-- The top operator of a property is kept in any case. -/
theorem Property.normalizeExpr_of_sameArrays {scope scope' : Scope} (h : scope.SameArrays scope')
    {e : Expr} (hn : (normalizeExpr scope e).outcome = .ok e) :
    (normalizeExpr scope' e).outcome = .ok e := by
  cases e with
  | operator op operands c =>
    simp only [normalizeExpr, Report.outcome_bind, Report.outcome_pure, Except.bind_eq_ok_iff,
      Except.ok.injEq] at hn ⊢
    obtain ⟨operands', hops, heq⟩ := hn
    obtain ⟨-, rfl, -⟩ := Expr.operator.inj heq
    exact ⟨operands', Expr.normalizeOperands_of_sameArrays h hops, rfl⟩
  | literal | identifier | arrayValue | distribution => exact Expr.IsNormal.of_sameArrays h hn

/-! ## Models -/

section

open Attempt

variable {scope scope' : Scope} (hs : scope.PlainLengths) (h : scope.SameArrays scope')

include hs h

theorem prepares_normalizeSlot {τ : Type} (p : Slot τ Expr) (t : τ) :
    Prepares (onSlot p fun _ => replace (Expr.normalize scope))
      (onSlot p fun _ => replace (Expr.normalize scope')) t :=
  (prepares_replace fun _ he => (Expr.isNormal_of_normalize hs he).of_sameArrays h).onSlot

theorem Destination.prepares_normalize (d : Destination) :
    Prepares (Destination.normalize scope) (Destination.normalize scope') d := by
  have hp : Prepares (onOption (Probability.normalize scope))
      (onOption (Probability.normalize scope')) d.probability :=
    prepares_onOption fun p _ => prepares_normalizeSlot hs h Probability.expSlot p
  have ha : Prepares (onEach (Assignment.normalize scope)) (onEach (Assignment.normalize scope'))
      d.assignments :=
    prepares_onEach fun a _ => prepares_normalizeSlot hs h Assignment.valueSlot a
  exact hp.andThen (p := probabilitySlot) (q := assignmentsSlot) (fun _ _ => rfl) (fun _ _ => rfl)
    (ha.mapResult _)

theorem Edge.prepares_normalize (e : Edge) :
    Prepares (Edge.normalize scope) (Edge.normalize scope') e := by
  have hg : Prepares (onOption (Guard.normalize scope)) (onOption (Guard.normalize scope'))
      e.guard :=
    prepares_onOption fun g _ => prepares_normalizeSlot hs h Guard.expSlot g
  have hd : Prepares (onEach (Destination.normalize scope)) (onEach (Destination.normalize scope'))
      e.destinations :=
    prepares_onEach fun d _ => d.prepares_normalize hs h
  exact hg.andThen (p := guardSlot) (q := destinationsSlot) (fun _ _ => rfl) (fun _ _ => rfl)
    (hd.mapResult _)

end

section

open Attempt

theorem Automaton.keeps_normalize {globals : Registry} {a : Automaton}
    (h : ∀ e ∈ a.edges, Keeps (Edge.normalize { locals := some a.locals, globals }) e) :
    Keeps (Automaton.normalize globals) a := by
  obtain ⟨hok, hstate⟩ := keeps_onEach h
  refine ⟨succeeds_mapError.2 (succeeds_mapResult.2 hok), ?_⟩
  exact congrArg (fun edges => ({ a with edges } : Automaton)) hstate

theorem Registry.find?_unsized (r : Registry) (name : String) :
    r.unsized.find? name = (r.find? name).map (·.unsized) := Registry.find?_withVars_map _ name

theorem Scope.sameArrays_unsized (locals : Option Registry) (globals : Registry) :
    Scope.SameArrays { locals, globals }
      { locals := locals.map (·.unsized), globals := globals.unsized } := by
  intro name
  have hfind : Scope.find? { locals := locals.map (·.unsized), globals := globals.unsized } name =
      (Scope.find? { locals, globals } name).map (·.unsized) := by
    cases locals with
    | none => simp [Scope.find?, Registry.find?_unsized]
    | some r => simp [Scope.find?, Registry.find?_unsized, Option.map_or]
  rw [hfind, Option.any_map]
  rfl

theorem Automaton.keeps_normalize_unsized {globals : Registry} {a : Automaton}
    (hs : Scope.PlainLengths { locals := some a.locals, globals })
    (h : (a.normalize globals).Succeeds) :
    Keeps (Automaton.normalize globals.unsized) (a.normalize globals).state.unsized := by
  have hsame := Scope.sameArrays_unsized (some a.locals) globals
  rw [Automaton.state_normalize h]
  refine Automaton.keeps_normalize (List.forall_mem_map.2 fun e he => ?_)
  exact e.prepares_normalize hs hsame (Automaton.succeeds_normalize.1 h e he)

theorem Property.keeps_normalize_unsized {globals : Registry}
    (hs : Scope.PlainLengths { globals }) {p : Property} (h : (p.normalize globals).Succeeds) :
    Keeps (Property.normalize globals.unsized) (p.normalize globals).state := by
  have hsame := Scope.sameArrays_unsized none globals
  have hexpr : Prepares (replace (normalizeExpr { globals }))
      (replace (normalizeExpr { globals := globals.unsized })) p.expression :=
    prepares_replace fun _ he =>
      normalizeExpr_of_sameArrays hsame (normalizeExpr_normalizeExpr hs he)
  obtain ⟨hok, hstate⟩ := hexpr (succeeds_mapError.1 h)
  refine ⟨succeeds_mapError.2 hok, ?_⟩
  exact congrArg (fun expression => ({ p with expression } : Property)) hstate

namespace Model

theorem keeps_normalize {m : Model}
    (ha : ∀ a ∈ m.automata, Keeps (Automaton.normalize m.globals) a)
    (hp : ∀ p ∈ m.properties, Keeps (Property.normalize m.globals) p) :
    Keeps Model.normalize m := by
  obtain ⟨haok, hastate⟩ := keeps_onEach ha
  obtain ⟨hpok, hpstate⟩ := keeps_onEach hp
  have hautomata : Keeps normalizeAutomata m :=
    ⟨succeeds_mapResult.2 haok, congrArg (fun automata => ({ m with automata } : Model)) hastate⟩
  have hproperties : Keeps normalizeProperties m :=
    ⟨succeeds_mapResult.2 hpok,
      congrArg (fun properties => ({ m with properties } : Model)) hpstate⟩
  obtain ⟨hok, hstate⟩ := hautomata.andThen hproperties
  exact ⟨succeeds_after.2 hok, hstate⟩

theorem properties_of_normalize {m : Model} (h : m.normalize.Succeeds) :
    (∀ p ∈ m.properties, (p.normalize m.globals).Succeeds) ∧
      m.normalize.state.properties = m.properties.map fun p => (p.normalize m.globals).state := by
  obtain ⟨a, ha, hp⟩ := Attempt.succeeds_andThen.1 (Attempt.succeeds_after.1 h)
  have hp : ∀ p ∈ m.properties, (p.normalize m.globals).Succeeds :=
    succeeds_onEach.1 (succeeds_mapResult.1 hp)
  refine ⟨hp, ?_⟩
  have hstate : m.normalize.state = m.normalizeAutomata.state.normalizeProperties.state :=
    (Attempt.andThen_eq_of_ok ha _).2
  rw [hstate, ← state_onEach hp]
  rfl

/-- Normalizing leaves the variables as they are. -/
theorem plainLengths_of_normalize {m : Model} (h : m.normalize.Succeeds)
    (hs : m.normalize.state.PlainLengths) : m.PlainLengths := by
  obtain ⟨properties, hstate⟩ := state_normalize h
  rw [hstate] at hs
  refine ⟨fun a ha => ?_, hs.properties⟩
  have hscope := hs.automata _ (List.mem_map_of_mem ha)
  rwa [Automaton.state_normalize (automata_of_normalize h a ha)] at hscope

theorem keeps_normalize_unsized {m : Model} (h : m.normalize.Succeeds)
    (hs : m.normalize.state.PlainLengths) : Keeps Model.normalize m.normalize.state.unsized := by
  have hplain := plainLengths_of_normalize h hs
  obtain ⟨hp, hproperties⟩ := properties_of_normalize h
  obtain ⟨properties, hstate⟩ := state_normalize h
  rw [hstate] at hproperties ⊢
  obtain rfl : properties = m.properties.map fun p => (p.normalize m.globals).state := hproperties
  refine keeps_normalize ?_ ?_
  · simp only [unsized, List.forall_mem_map]
    exact fun a ha =>
      Automaton.keeps_normalize_unsized (hplain.automata a ha) (automata_of_normalize h a ha)
  · simp only [unsized, List.forall_mem_map]
    exact fun p hmem => Property.keeps_normalize_unsized hplain.properties (hp p hmem)

end Model

end

theorem Model.keeps_normalize_reloaded {m : Model} (h : m.normalize.Succeeds)
    (hs : m.normalize.state.PlainLengths) :
    Attempt.Keeps Model.normalize m.normalize.state.reloaded := by
  obtain ⟨hok, hstate⟩ := keeps_normalize_unsized h hs
  change Attempt.Keeps Model.normalize
    (m.normalize.state.unsized.mapExprs (.relabel .eraseLeaves))
  unfold Attempt.Keeps
  rw [Model.normalize_relabel]
  exact ⟨hok, congrArg (Model.mapExprs _) hstate⟩

/-- A model that was written is read again without capacities and without the comments on literals
and identifiers. If it is a normal form, it is one then too, and is written as before. -/
theorem reload_normalized :
    (∀ m : Model, m.Encodable →
      (Model.codec.ofValue (Model.codec.encode m)).outcome = .ok m.reloaded) ∧
    ∀ m₀ m : Model, m₀.normalize.toReport.outcome = .ok m → m.Encodable → m.PlainLengths →
      (Model.codec.ofValue (Model.codec.encode m)).outcome = .ok m.reloaded ∧
        m.reloaded.normalize.outcome = .ok () ∧ m.reloaded.normalize.state = m.reloaded ∧
        Model.codec.encode m.reloaded.normalize.state = Model.codec.encode m := by
  refine ⟨fun m h => (Model.rereads h).decode, fun m₀ m hm h hs => ?_⟩
  obtain ⟨hok, rfl⟩ := Attempt.toReport_eq_ok_iff.1 hm
  obtain ⟨⟨_, hagain⟩, hstate⟩ := Model.keeps_normalize_reloaded hok hs
  have hwritten := Model.rereads h
  refine ⟨hwritten.decode, hagain, hstate, ?_⟩
  rw [hstate]
  exact hwritten.encode

/-- A desk that lends the last book, with a reader who need not be there. -/
def lending : Model where
  name := "lending"
  features := [.arrays]
  actions := [{ name := "lend" }]
  globals := Model.shelf.globals
  automata := [
    { Automaton.single "desk" "open" with
      edges := [
        { location := "open"
          action := some "lend"
          guard := some
            { exp := .equal (.identifier "books" (some "in stock")) (.arrayValue [.ofInt 7] none) }
          destinations := [
            { location := "open"
              probability := some { exp := .literal (.real 0.5) (some "half") } }] }] },
    Automaton.single "reader" "waiting"]
  system :=
    { elements := [{ automaton := "desk" }, { automaton := "reader" }]
      syncs := [{ participants := [some "lend", none], result := some "lend" }] }
  properties := [
    { name := "last", expression := .equal (.var "books") (.arrayValue [.ofInt 7] none) }]

theorem lending_plainLengths : lending.normalize.state.PlainLengths := by
  refine ⟨fun a ha => ?_, Model.shelf_plainLengths.properties⟩
  have hscope := Model.shelf_plainLengths.automata _ (List.mem_cons_self ..)
  rcases List.mem_pair.1 ha with rfl | rfl <;> exact hscope

/-- The guard was replaced, and needs no capacity any more when it is read again. -/
theorem reload_normalized_lending :
    (Model.codec.ofValue (Model.codec.encode lending)).outcome = .ok lending.reloaded ∧
    ∃ m, lending.normalize.toReport.outcome = .ok m ∧ m.Encodable ∧ m.PlainLengths ∧
      m.globals.vars.map (·.capacities) = [some [3], none] ∧
      m.reloaded.globals.vars.map (·.capacities) = [none, none] ∧
      (Model.codec.ofValue (Model.codec.encode m)).outcome = .ok m.reloaded ∧
      m.reloaded.normalize.outcome = .ok () ∧ m.reloaded.normalize.state = m.reloaded ∧
      Model.codec.encode m.reloaded.normalize.state = Model.codec.encode m := by
  have hbefore : lending.Encodable := by decide +kernel
  have hafter : lending.normalize.state.Encodable := by decide +kernel
  exact ⟨reload_normalized.1 _ hbefore, lending.normalize.state, rfl, hafter, lending_plainLengths,
    rfl, rfl, reload_normalized.2 lending _ rfl hafter lending_plainLengths⟩

end AutomataNet
