import AutomataNet.Report
import Mathlib
/-!
# Opening outcomes

How the outcome of a compound operation comes about from the outcomes of its parts. Proofs about
the passes take a successful run apart with these lemmas and never look into the notices.
-/

namespace Except

variable {ε ε' α β : Type}

theorem bind_eq_ok_iff {x : Except ε α} {f : α → Except ε β} {b : β} :
    x >>= f = .ok b ↔ ∃ a, x = .ok a ∧ f a = .ok b := by
  cases x with
  | error e => simp [bind, Except.bind]
  | ok a => simp [bind, Except.bind]

theorem bind_eq_error_iff {x : Except ε α} {f : α → Except ε β} {e : ε} :
    x >>= f = .error e ↔ x = .error e ∨ ∃ a, x = .ok a ∧ f a = .error e := by
  cases x with
  | error e => simp [bind, Except.bind]
  | ok a => simp [bind, Except.bind]

theorem mapError_eq_error_iff {x : Except ε α} {f : ε → ε'} {e' : ε'} :
    x.mapError f = .error e' ↔ ∃ e, x = .error e ∧ f e = e' := by
  cases x <;> simp [Except.mapError]

theorem map_eq_ok_iff {x : Except ε α} {f : α → β} {b : β} :
    f <$> x = .ok b ↔ ∃ a, x = .ok a ∧ f a = b := by
  cases x with
  | error e => simp [Functor.map, Except.map]
  | ok a => simp [Functor.map, Except.map]

theorem mapError_eq_ok_iff {x : Except ε α} {f : ε → ε'} {a : α} :
    x.mapError f = .ok a ↔ x = .ok a := by
  cases x <;> simp [Except.mapError]

theorem toOption_eq_some_iff {x : Except ε α} {a : α} : x.toOption = some a ↔ x = .ok a := by
  cases x <;> simp [Except.toOption]

end Except

namespace AutomataNet.Report

variable {ε ε' α β γ : Type}

theorem map_eq (g : α → β) (x : Report ε α) : g <$> x = ⟨g <$> x.outcome, x.notices⟩ := by
  show bind x (fun a => ok (g a)) = _
  unfold bind
  cases x.outcome with
  | error e => rfl
  | ok a => exact congrArg (Report.mk _) (List.append_nil _)

theorem map_bind (g : β → γ) (x : Report ε α) (f : α → Report ε β) :
    g <$> (x >>= f) = x >>= fun a => g <$> f a := by
  rw [map_eq]
  show _ = bind x _
  change (⟨g <$> (bind x f).outcome, (bind x f).notices⟩ : Report ε γ) = _
  unfold bind
  cases x.outcome with
  | error e => rfl
  | ok a => simp only [map_eq]

theorem bind_map (g : α → β) (x : Report ε α) (f : β → Report ε γ) :
    g <$> x >>= f = x >>= fun a => f (g a) := by
  rw [map_eq]
  show bind _ f = bind x _
  unfold bind
  cases x.outcome <;> rfl

theorem map_pure (g : α → β) (a : α) : g <$> (pure a : Report ε α) = pure (g a) := rfl

theorem mapError_map (g : α → β) (h : ε → ε') (x : Report ε α) :
    (g <$> x).mapError h = g <$> x.mapError h := by
  rw [map_eq, map_eq]
  unfold mapError
  cases x.outcome <;> rfl

/-- A list is gone through item by item. -/
theorem mapList_eq_ok_iff {f : α → Report ε β} {as : List α} {bs : List β} :
    (mapList f as).outcome = .ok bs ↔ List.Forall₂ (fun a b => (f a).outcome = .ok b) as bs := by
  induction as generalizing bs with
  | nil =>
    rw [List.forall₂_nil_left_iff]
    exact ⟨fun h => (Except.ok.inj h).symm, fun h => h ▸ rfl⟩
  | cons a as ih =>
    simp only [mapList, outcome_bind, outcome_pure, Except.bind_eq_ok_iff, Except.ok.injEq,
      List.forall₂_cons_left_iff, ih]
    constructor
    · rintro ⟨b, hb, cs, hcs, rfl⟩
      exact ⟨b, cs, hb, hcs, rfl⟩
    · rintro ⟨b, cs, hb, hcs, rfl⟩
      exact ⟨b, hb, cs, hcs, rfl⟩

end AutomataNet.Report

namespace AutomataNet.Attempt

variable {σ τ ε ε' α β : Type}

/-- The attempt has a result. What it leaves behind is then its final state. -/
def Succeeds (x : Attempt σ ε α) : Prop := ∃ a, x.outcome = .ok a

theorem toReport_eq_ok_iff {x : Attempt σ ε α} {s : σ} :
    x.toReport.outcome = .ok s ↔ x.Succeeds ∧ x.state = s := by
  simp only [toReport, Except.map_eq_ok_iff, Succeeds, exists_and_right]

@[simp] theorem succeeds_mapState {x : Attempt σ ε α} {f : σ → τ} :
    (x.mapState f).Succeeds ↔ x.Succeeds := Iff.rfl

@[simp] theorem succeeds_mapError {x : Attempt σ ε α} {f : ε → ε'} :
    (x.mapError f).Succeeds ↔ x.Succeeds := by
  simp [Succeeds, mapError, Except.mapError_eq_ok_iff]

@[simp] theorem succeeds_mapResult {x : Attempt σ ε α} {f : α → β} :
    (x.mapResult f).Succeeds ↔ x.Succeeds := by
  simp only [Succeeds, mapResult, Except.map_eq_ok_iff]
  constructor
  · rintro ⟨_, a, ha, _⟩
    exact ⟨a, ha⟩
  · rintro ⟨a, ha⟩
    exact ⟨f a, a, ha, rfl⟩

@[simp] theorem succeeds_after {x : Attempt σ ε α} {n : Notice} :
    (x.after n).Succeeds ↔ x.Succeeds := Iff.rfl

@[simp] theorem outcome_noting (f : α → List Notice) (x : Attempt σ ε α) :
    (x.noting f).outcome = x.outcome := by
  unfold noting
  cases h : x.outcome <;> rfl

@[simp] theorem state_noting (f : α → List Notice) (x : Attempt σ ε α) :
    (x.noting f).state = x.state := by
  unfold noting
  cases x.outcome <;> rfl

@[simp] theorem succeeds_noting {x : Attempt σ ε α} {f : α → List Notice} :
    (x.noting f).Succeeds ↔ x.Succeeds := by
  simp [Succeeds]

theorem andThen_eq_of_ok {x : Attempt σ ε α} {a : α} (hx : x.outcome = .ok a)
    (f : σ → α → Attempt σ ε β) :
    (x.andThen f).outcome = (f x.state a).outcome ∧ (x.andThen f).state = (f x.state a).state := by
  simp [andThen, hx]

theorem succeeds_andThen {x : Attempt σ ε α} {f : σ → α → Attempt σ ε β} :
    (x.andThen f).Succeeds ↔ ∃ a, x.outcome = .ok a ∧ (f x.state a).Succeeds := by
  unfold andThen Succeeds
  cases x.outcome <;> simp

/-- A value that was replaced. -/
theorem succeeds_replace {f : σ → Report ε σ} {s : σ} (h : (replace f s).Succeeds) :
    (f s).outcome = .ok (replace f s).state := by
  obtain ⟨a, ha⟩ := h
  cases hf : (f s).outcome with
  | error e => simp [replace, hf] at ha
  | ok s' => simp [replace, hf]

theorem succeeds_onEach {f : σ → Attempt σ ε α} {ss : List σ} :
    (onEach f ss).Succeeds ↔ ∀ s ∈ ss, (f s).Succeeds := by
  induction ss with
  | nil => simp [onEach, ok, Succeeds]
  | cons s ss ih =>
    rw [List.forall_mem_cons, ← ih]
    cases hs : (f s).outcome with
    | error e => simp [onEach, Succeeds, hs]
    | ok a =>
      simp only [onEach, Succeeds, hs, Except.map_eq_ok_iff]
      simp

/-- Where every item succeeds, each is left in its own final state. -/
theorem state_onEach {f : σ → Attempt σ ε α} {ss : List σ} (h : ∀ s ∈ ss, (f s).Succeeds) :
    (onEach f ss).state = ss.map fun s => (f s).state := by
  induction ss with
  | nil => rfl
  | cons s ss ih =>
    obtain ⟨⟨a, ha⟩, hss⟩ := List.forall_mem_cons.1 h
    simp [onEach, ha, ih hss]

/-! ## The same operation on another state

When one operation does to the image of a state what another one does to the state, so do the
operations built from the two. -/

theorem mapState_andThen {g : σ → τ} {f : σ → α → Attempt σ ε β} {f' : τ → α → Attempt τ ε β}
    (h : ∀ s a, f' (g s) a = (f s a).mapState g) (x : Attempt σ ε α) :
    (x.mapState g).andThen f' = (x.andThen f).mapState g := by
  unfold andThen mapState
  cases x.outcome with
  | error e => rfl
  | ok a => simp only [h, mapState]

theorem toReport_mapState (g : σ → τ) (x : Attempt σ ε α) :
    (x.mapState g).toReport = g <$> x.toReport := by
  rw [Report.map_eq]
  unfold toReport mapState
  cases x.outcome <;> rfl

theorem replace_map {g : σ → τ} {f : σ → Report ε σ} {f' : τ → Report ε τ} {s : σ}
    (h : f' (g s) = g <$> f s) : replace f' (g s) = (replace f s).mapState g := by
  unfold replace mapState
  rw [h, Report.map_eq]
  obtain ⟨outcome, notices⟩ := f s
  cases outcome <;> rfl

theorem onOption_map {g : σ → τ} {f : σ → Attempt σ ε Unit} {f' : τ → Attempt τ ε Unit}
    (h : ∀ s, f' (g s) = (f s).mapState g) (o : Option σ) :
    onOption f' (o.map g) = (onOption f o).mapState (Option.map g) := by
  cases o with
  | none => rfl
  | some s => exact congrArg (Attempt.mapState some) (h s)

theorem onEach_map {g : σ → τ} {f : σ → Attempt σ ε α} {f' : τ → Attempt τ ε α}
    (h : ∀ s, f' (g s) = (f s).mapState g) (ss : List σ) :
    onEach f' (ss.map g) = (onEach f ss).mapState (List.map g) := by
  induction ss with
  | nil => rfl
  | cons s ss ih =>
    simp only [List.map_cons, onEach, h, ih, mapState]
    cases (f s).outcome <;> rfl

end AutomataNet.Attempt
