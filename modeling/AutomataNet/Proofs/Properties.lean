import AutomataNet.Proofs.Reload
import AutomataNet.Proofs.Supported
/-!
# What normalizing does to properties

A property is normalized operand by operand. Its top operator is kept, whatever the operands are, so
an array under it stays (`top_comparison_kept`). Below the top operator, and everywhere in a
property whose top operator has no arrays, the result is the normal form
(`normalize_properties_operandwise`).
-/

namespace AutomataNet

namespace Expr

/-- The root is an operator with an array among its operands. -/
def TopUsesArray (scope : Scope) : Expr → Prop
  | .operator op operands _ => UsesArray scope op operands
  | _ => False

/-- The node neither compares something with an array value nor uses an array under an operator
other than an equality. -/
def IsResolved (scope : Scope) : Expr → Prop
  | .operator op operands _ =>
    (op = .eq → ∀ p ∈ operands, p.2.isArrayValue = false) ∧
      (op ≠ .eq → ¬ UsesArray scope op operands)
  | _ => True

theorem IsReduced.isResolved {scope : Scope} {n : Expr} (h : n.IsReduced scope) :
    n.IsResolved scope := by
  cases n with
  | operator op operands c =>
    rcases h with h | ⟨rfl, array, k, -, rfl⟩
    · refine ⟨?_, fun _ => h⟩
      rintro rfl
      exact not_isArrayValue_of_hasArrayOperand (hasArrayOperand_eq_false_iff.2 h)
    · refine ⟨fun _ p hp => ?_, fun hne => absurd rfl hne⟩
      rcases List.mem_pair.1 hp with rfl | rfl <;> rfl
  | literal | identifier | arrayValue | distribution => trivial

/-- Operands are normalized one by one, and keep their roles. -/
theorem normalizeOperands_eq_ok_iff {scope : Scope} {operands operands' : List (String × Expr)} :
    (normalizeOperands scope operands).outcome = .ok operands' ↔
      List.Forall₂ (fun p q => p.1 = q.1 ∧ (p.2.normalize scope).outcome = .ok q.2)
        operands operands' := by
  induction operands generalizing operands' with
  | nil =>
    rw [List.forall₂_nil_left_iff]
    constructor
    · intro h
      exact (Except.ok.inj h).symm
    · rintro rfl
      rfl
  | cons p operands ih =>
    obtain ⟨role, e⟩ := p
    simp only [normalizeOperands, Report.outcome_bind, Report.outcome_pure, Except.bind_eq_ok_iff,
      Except.ok.injEq, List.forall₂_cons_left_iff, ih]
    constructor
    · rintro ⟨x, hx, xs, hxs, rfl⟩
      exact ⟨(role, x), xs, ⟨rfl, hx⟩, hxs, rfl⟩
    · rintro ⟨⟨_, x⟩, xs, ⟨rfl, hx⟩, hxs, rfl⟩
      exact ⟨x, hx, xs, hxs, rfl⟩

/-- The sides of a comparison are normal already. -/
theorem normalizeOperands_of_compares {scope : Scope} {array : String} {elements : List Expr}
    {operands : List (String × Expr)} (h : Compares array elements operands) :
    (normalizeOperands scope operands).outcome = .ok operands := by
  cases h <;> rfl

end Expr

namespace Property

open AutomataNet.Expr

variable {scope : Scope}

theorem normalizeExpr_operator_eq_ok_iff {op : Op} {operands : List (String × Expr)}
    {c : Option String} {e' : Expr} :
    (normalizeExpr scope (.operator op operands c)).outcome = .ok e' ↔
      ∃ operands', (normalizeOperands scope operands).outcome = .ok operands' ∧
        .operator op operands' c = e' := by
  simp only [normalizeExpr, Report.outcome_bind, Report.outcome_pure, Except.bind_eq_ok_iff,
    Except.ok.injEq]

/-- The two ways to normalize agree unless there is an array below the top operator. -/
theorem normalize_eq_ok_iff_of_normalizeExpr {e e' : Expr}
    (h : (normalizeExpr scope e).outcome = .ok e') :
    (e.normalize scope).outcome = .ok e' ↔ ¬ e.TopUsesArray scope := by
  cases e with
  | literal | identifier | arrayValue | distribution => exact ⟨fun _ => not_false, fun _ => h⟩
  | operator op operands c =>
    obtain ⟨operands', hops, rfl⟩ := normalizeExpr_operator_eq_ok_iff.1 h
    rw [normalize_operator_eq_ok_iff, hasArrayOperand_eq_false_iff]
    constructor
    · rintro (⟨ha, -⟩ | ⟨-, rfl, e₀, he, heq⟩)
      · exact ha
      · -- the comparison was kept on the one side and replaced on the other
        obtain ⟨array, elements, hc, rfl⟩ := expandComparison_eq_ok_iff_comparable.1 he
        rw [normalizeOperands_of_compares hc.sides] at hops
        obtain rfl := Except.ok.inj hops
        exact absurd heq (comparison_ne_of_compares hc.sides c c)
    · intro ha
      exact .inl ⟨ha, operands', hops, rfl⟩

theorem isReduced_part_of_normalizeExpr {e e' : Expr}
    (h : (normalizeExpr scope e).outcome = .ok e') :
    ∀ x, e'.Part x → x.Everywhere (IsReduced scope) := by
  cases e with
  | literal | identifier | arrayValue | distribution =>
    exact (everywhere_iff.1 (isReduced_of_normalize h)).2
  | operator op operands c =>
    obtain ⟨operands', hops, rfl⟩ := normalizeExpr_operator_eq_ok_iff.1 h
    intro x hx
    obtain ⟨role, hmem⟩ := part_operator_iff.1 hx
    exact isReduced_of_normalizeOperands hops (role, x) hmem

/-- What a property is like after normalization. -/
structure Normalizes (scope : Scope) (p p' : Property) : Prop where
  name : p'.name = p.name
  comment : p'.comment = p.comment
  /-- The top operator stays, and its operands are replaced by their normal forms. -/
  operands : ∀ op operands c, p.expression = .operator op operands c →
    ∃ operands', p'.expression = .operator op operands' c ∧
      List.Forall₂ (fun x y => x.1 = y.1 ∧ (x.2.normalize scope).outcome = .ok y.2)
        operands operands'
  /-- The expression as a whole is replaced by its normal form exactly if there is no array under
  the top operator. -/
  agrees : (p.expression.normalize scope).outcome = .ok p'.expression ↔
    ¬ p.expression.TopUsesArray scope
  below : ∀ x, p'.expression.Part x → x.Everywhere (IsResolved scope)
  resolved : ¬ p.expression.TopUsesArray scope → p'.expression.Everywhere (IsResolved scope)

theorem normalizes_of_normalize {globals : Registry} {p : Property}
    (h : (p.normalize globals).Succeeds) :
    p.Normalizes { globals } (p.normalize globals).state := by
  have hexpr : (normalizeExpr { globals } p.expression).outcome =
      .ok (p.normalize globals).state.expression :=
    Attempt.succeeds_replace (Attempt.succeeds_mapState.1 (Attempt.succeeds_mapError.1 h))
  have hagrees := normalize_eq_ok_iff_of_normalizeExpr hexpr
  refine ⟨rfl, rfl, ?_, hagrees, ?_, ?_⟩
  · intro op operands c heq
    rw [heq] at hexpr
    obtain ⟨operands', hops, hresult⟩ := normalizeExpr_operator_eq_ok_iff.1 hexpr
    exact ⟨operands', hresult.symm, normalizeOperands_eq_ok_iff.1 hops⟩
  · intro x hx
    exact (isReduced_part_of_normalizeExpr hexpr x hx).mono fun _ => IsReduced.isResolved
  · intro ha
    exact (isReduced_of_normalize (hagrees.2 ha)).mono fun _ => IsReduced.isResolved

end Property

/-- Normalizing a model normalizes each property below its top operator. -/
theorem normalize_properties_operandwise (m : Model) (h : m.normalize.outcome = .ok ()) :
    List.Forall₂ (Property.Normalizes { globals := m.globals }) m.properties
      m.normalize.state.properties := by
  obtain ⟨hall, hstate⟩ := Model.properties_of_normalize ⟨(), h⟩
  rw [hstate, List.forall₂_map_right_iff, List.forall₂_same]
  exact fun p hp => Property.normalizes_of_normalize (hall p hp)

/-- The shelf with two properties: one is a comparison, the other has one below its top operator. -/
def stock : Model where
  name := "stock"
  globals := Model.shelf.globals
  properties := [
    { name := "last", expression := lastBook none },
    { name := "never", expression := .neg (lastBook none) }]

/-- The second property is in normal form, and the operands of the first one are. -/
theorem normalize_properties_operandwise_stock :
    stock.normalize.outcome = .ok () ∧
      stock.normalize.state.properties.map (·.expression) =
        [lastBook none, .neg (comparison "books" [.ofInt 7])] ∧
      List.Forall₂ (Property.Normalizes { globals := stock.globals }) stock.properties
        stock.normalize.state.properties :=
  ⟨rfl, rfl, normalize_properties_operandwise stock rfl⟩

/-- A comparison that is the whole property is not replaced, although it has a normal form and this
is another expression. -/
theorem top_comparison_kept :
    stock.normalize.outcome = .ok () ∧
      stock.properties.head?.map (·.expression) = some (lastBook none) ∧
      stock.normalize.state.properties.head?.map (·.expression) = some (lastBook none) ∧
      ((lastBook none).normalize { globals := stock.globals }).outcome =
        .ok (comparison "books" [.ofInt 7]) ∧
      comparison "books" [.ofInt 7] ≠ lastBook none := by
  have hsides : Compares "books" [.ofInt 7]
      [("left", .var "books"), ("right", .arrayValue [.ofInt 7] none)] := .variableFirst ..
  exact ⟨rfl, rfl, rfl, rfl, comparison_ne_of_compares hsides none none⟩

end AutomataNet
