import AutomataNet.Expr.Normalization
import AutomataNet.Proofs.Outcome
/-!
# How normal forms come about

A successful normalization taken apart: which equalities are replaced, by what, and that every
other node is kept.
-/

namespace AutomataNet

/-! ## When a comparison is replaced -/

/-- The name is that of an array with one dimension. -/
def Scope.IsVector (scope : Scope) (name : String) : Prop :=
  ∃ v capacity, scope.find? name = some v ∧ v.isArray = true ∧ v.capacities = some [capacity]

/-- The operands are an array variable and an array value, in either order. -/
inductive Compares (array : String) (elements : List Expr) : List (String × Expr) → Prop
  | variableFirst (r s : String) (c d : Option String) :
      Compares array elements [(r, .identifier array c), (s, .arrayValue elements d)]
  | valueFirst (r s : String) (c d : Option String) :
      Compares array elements [(r, .arrayValue elements c), (s, .identifier array d)]

namespace Sides

theorem checkArray_eq_ok_iff {scope : Scope} {name : String} :
    checkArray scope name = .ok () ↔
      scope.IsVector name ∧ (scope.find? (lengthName name 1)).isSome = true := by
  unfold checkArray Scope.IsVector
  cases hv : scope.find? name with
  | none => simp
  | some v =>
    cases hc : v.capacities with
    | none => by_cases ha : v.isArray = true <;> simp [ha, hc]
    | some capacities =>
      by_cases ha : v.isArray = true
      · by_cases hl : capacities.length = 1
        · obtain ⟨capacity, rfl⟩ := List.length_eq_one_iff.1 hl
          by_cases hf : scope.find? (lengthName name 1) = none <;>
            simp [ha, hc, hf, Option.isSome_iff_ne_none]
        · have hne : ∀ capacity, capacities ≠ [capacity] := by
            rintro capacity rfl
            exact hl rfl
          simp [ha, hc, hl, hne]
      · simp [ha]

/-- Once both sides are found, no operand may follow. -/
theorem collect_full {scope : Scope} {s s' : Sides} {operands : List (String × Expr)}
    (ha : s.array.isSome = true) (he : s.elements.isSome = true)
    (h : collect scope s operands = .ok s') : operands = [] ∧ s' = s := by
  match operands with
  | [] =>
    simp only [collect, Except.ok.injEq] at h
    exact ⟨rfl, h.symm⟩
  | (_, e) :: rest =>
    cases e <;> simp [collect, ha, he, Except.bind_eq_ok_iff] at h

/-- Both sides are found exactly when the operands are an array that can be compared and an array
value. -/
theorem collect_eq_ok_iff {scope : Scope} {operands : List (String × Expr)} {array : String}
    {elements : List Expr} :
    collect scope {} operands = .ok ⟨some array, some elements⟩ ↔
      Compares array elements operands ∧ checkArray scope array = .ok () := by
  constructor
  · intro h
    match operands with
    | [] => simp [collect] at h
    | (r, .identifier name c) :: rest =>
      simp only [collect, Except.bind_eq_ok_iff, Option.isSome_none, Bool.false_eq_true,
        if_false] at h
      obtain ⟨_, hc, h⟩ := h
      match rest with
      | [] => simp [collect] at h
      | (s, .arrayValue values d) :: rest =>
        simp only [collect, Option.isSome_none, Bool.false_eq_true, if_false] at h
        obtain ⟨rfl, hs⟩ := collect_full rfl rfl h
        simp only [mk.injEq, Option.some.injEq] at hs
        obtain ⟨rfl, rfl⟩ := hs
        exact ⟨.variableFirst r s c d, hc⟩
      | (s, .identifier _ _) :: rest => simp [collect, Except.bind_eq_ok_iff] at h
      | (s, .literal _ _) :: rest | (s, .operator _ _ _) :: rest
      | (s, .distribution _ _ _) :: rest => simp [collect] at h
    | (r, .arrayValue values c) :: rest =>
      simp only [collect, Option.isSome_none, Bool.false_eq_true, if_false] at h
      match rest with
      | [] => simp [collect] at h
      | (s, .identifier name d) :: rest =>
        simp only [collect, Except.bind_eq_ok_iff, Option.isSome_none, Bool.false_eq_true,
          if_false] at h
        obtain ⟨_, hc, h⟩ := h
        obtain ⟨rfl, hs⟩ := collect_full rfl rfl h
        simp only [mk.injEq, Option.some.injEq] at hs
        obtain ⟨rfl, rfl⟩ := hs
        exact ⟨.valueFirst r s c d, hc⟩
      | (s, .arrayValue _ _) :: rest => simp [collect] at h
      | (s, .literal _ _) :: rest | (s, .operator _ _ _) :: rest
      | (s, .distribution _ _ _) :: rest => simp [collect] at h
    | (r, .literal _ _) :: rest | (r, .operator _ _ _) :: rest
    | (r, .distribution _ _ _) :: rest => simp [collect] at h
  · rintro ⟨hc, hn⟩
    cases hc <;> simp [collect, hn, bind, Except.bind]

end Sides

/-- An equality is replaced exactly when it compares a vector that has a companion with an array
value of literals. -/
theorem expandComparison_eq_ok_iff {scope : Scope} {operands : List (String × Expr)} {e : Expr} :
    (expandComparison scope operands).outcome = .ok e ↔
      ∃ array elements, Compares array elements operands ∧ scope.IsVector array ∧
        (scope.find? (lengthName array 1)).isSome = true ∧
        (∀ x ∈ elements, x.literal?.isSome = true) ∧ e = comparison array elements := by
  unfold expandComparison
  simp only [Report.outcome_bind, Report.outcome_ofExcept, Except.bind_eq_ok_iff]
  constructor
  · rintro ⟨⟨array, elements⟩, hs, h⟩
    cases array with
    | none => simp at h
    | some array =>
      cases elements with
      | none => simp at h
      | some elements =>
        obtain ⟨hc, hn⟩ := Sides.collect_eq_ok_iff.1 hs
        obtain ⟨hv, hl⟩ := Sides.checkArray_eq_ok_iff.1 hn
        simp only at h
        split at h
        · rename_i hall
          simp only [List.all_eq_true] at hall
          simp only [Report.outcome_bind, Report.outcome_note, Report.outcome_pure,
            Except.bind_eq_ok_iff, Except.ok.injEq] at h
          obtain ⟨_, _, h⟩ := h
          exact ⟨array, elements, hc, hv, hl, hall, h.symm⟩
        · simp at h
  · rintro ⟨array, elements, hc, hv, hl, hall, rfl⟩
    refine ⟨_, Sides.collect_eq_ok_iff.2 ⟨hc, Sides.checkArray_eq_ok_iff.2 ⟨hv, hl⟩⟩, ?_⟩
    have hall' : elements.all (·.literal?.isSome) = true := List.all_eq_true.2 hall
    simp [hall', Except.bind_eq_ok_iff]

/-! ## Nodes -/

/-- The conjunction is an operator, and no array. -/
theorem comparison_isOperator (array : String) (elements : List Expr) :
    ∃ op operands c, comparison array elements = .operator op operands c := by
  unfold comparison
  rcases List.eq_nil_or_concat elements.zipIdx with h | ⟨l, ⟨e, i⟩, h⟩
  · rw [h]
    exact ⟨_, _, _, rfl⟩
  · rw [h, List.concat_eq_append, List.foldl_append]
    exact ⟨_, _, _, rfl⟩

namespace Expr

/-- An operator is kept, with its operands in normal form, or it is an equality and replaced. -/
theorem normalize_operator_eq_ok_iff {scope : Scope} {op : Op} {operands : List (String × Expr)}
    {c : Option String} {e : Expr} :
    (normalize scope (.operator op operands c)).outcome = .ok e ↔
      (hasArrayOperand scope op operands = false ∧
        ∃ operands', (normalizeOperands scope operands).outcome = .ok operands' ∧
          .operator op operands' c = e) ∨
      (hasArrayOperand scope op operands = true ∧ op = .eq ∧
        ∃ e', (expandComparison scope operands).outcome = .ok e' ∧ e'.withComment c = e) := by
  rw [normalize]
  by_cases h : hasArrayOperand scope op operands = true
  · by_cases ho : op = .eq
    · subst ho
      simp [h, Except.map_eq_ok_iff]
    · simp [h, ho]
  · simp [h, Except.bind_eq_ok_iff]

/-- What changes is an operator or a distribution, and stays one. -/
theorem root_normalize {scope : Scope} {e e' : Expr} (h : (e.normalize scope).outcome = .ok e') :
    e' = e ∨
      (∃ op operands c op' operands' c',
        e = .operator op operands c ∧ e' = .operator op' operands' c') ∨
      ∃ name args args' c, e = .distribution name args c ∧ e' = .distribution name args' c := by
  cases e with
  | literal v c | identifier name c | arrayValue es c =>
    simp only [normalize, Report.outcome_ok, Except.ok.injEq] at h
    exact .inl h.symm
  | distribution name args c =>
    simp only [normalize, Report.outcome_bind, Report.outcome_pure, Except.bind_eq_ok_iff,
      Except.ok.injEq] at h
    obtain ⟨args', _, rfl⟩ := h
    exact .inr (.inr ⟨name, args, args', c, rfl, rfl⟩)
  | operator op operands c =>
    rcases normalize_operator_eq_ok_iff.1 h with ⟨_, operands', _, rfl⟩ | ⟨_, _, e₀, he, rfl⟩
    · exact .inr (.inl ⟨_, _, _, _, _, _, rfl, rfl⟩)
    · obtain ⟨array, elements, -, -, -, -, rfl⟩ := expandComparison_eq_ok_iff.1 he
      obtain ⟨_, _, _, hop⟩ := comparison_isOperator array elements
      exact .inr (.inl ⟨_, _, _, _, _, _, rfl, by rw [hop]; rfl⟩)

/-- Normalizing makes no array values. -/
theorem isArrayValue_normalize {scope : Scope} {e e' : Expr}
    (h : (e.normalize scope).outcome = .ok e') : e'.isArrayValue = e.isArrayValue := by
  rcases root_normalize h with
    rfl | ⟨_, _, _, _, _, _, rfl, rfl⟩ | ⟨_, _, _, _, rfl, rfl⟩ <;> rfl

theorem not_isArrayValue_of_hasArrayOperand {scope : Scope} {operands : List (String × Expr)}
    (h : hasArrayOperand scope .eq operands = false) :
    ∀ p ∈ operands, p.2.isArrayValue = false := by
  intro p hp
  simp only [hasArrayOperand, List.any_eq_false] at h
  have := h p hp
  cases hv : p.2 <;> simp_all [isArray, isArrayValue]

theorem isArrayValue_normalizeOperands {scope : Scope} {operands operands' : List (String × Expr)}
    (h : (normalizeOperands scope operands).outcome = .ok operands')
    (hv : ∀ p ∈ operands, p.2.isArrayValue = false) :
    ∀ p ∈ operands', p.2.isArrayValue = false := by
  induction operands generalizing operands' with
  | nil =>
    simp only [normalizeOperands, Report.outcome_ok, Except.ok.injEq] at h
    subst h
    simp
  | cons x xs ih =>
    simp only [normalizeOperands, Report.outcome_bind, Report.outcome_pure,
      Except.bind_eq_ok_iff, Except.ok.injEq] at h
    obtain ⟨y, hy, ys, hys, rfl⟩ := h
    intro p hp
    rcases List.mem_cons.1 hp with rfl | hp
    · rw [isArrayValue_normalize hy]
      exact hv x (by simp)
    · exact ih hys (fun q hq => hv q (by simp [hq])) p hp

end Expr

end AutomataNet
