import AutomataNet.Proofs.Stability
/-!
# Which expressions have a normal form

An array may stand in two places: under an equality, if it is compared with an array value of
literals, and as the array whose cell is accessed. `Expr.Supported` says so of every node that
normalization comes to, and these expressions are the ones it accepts. The result differs in the
comparisons only (`Expr.Rewrites`), and no operator in it has an array among its operands.
-/

namespace AutomataNet

open Relation

/-! ## Arrays among the operands -/

/-- The expression is an array as a whole: an array value, or the name of an array. -/
inductive Expr.DenotesArray (scope : Scope) : Expr → Prop
  | value (elements : List Expr) (c : Option String) : DenotesArray scope (.arrayValue elements c)
  | name {name : String} {v : Variable} (c : Option String) (hv : scope.find? name = some v)
      (ha : v.isArray = true) : DenotesArray scope (.identifier name c)

/-- Some operand is an array. The array whose cell is accessed does not count. -/
def UsesArray (scope : Scope) (op : Op) (operands : List (String × Expr)) : Prop :=
  ∃ role e, (role, e) ∈ operands ∧ ¬ (op = .arrayAccess ∧ role = "exp") ∧ e.DenotesArray scope

/-- The operands are a vector that has a companion and an array value of literals, in either
order. -/
structure Comparable (scope : Scope) (array : String) (elements : List Expr)
    (operands : List (String × Expr)) : Prop where
  sides : Compares array elements operands
  vector : scope.IsVector array
  companion : (scope.find? (lengthName array 1)).isSome = true
  literals : ∀ x ∈ elements, x.literal?.isSome = true

theorem Expr.isArray_iff {scope : Scope} {e : Expr} :
    e.isArray scope = true ↔ e.DenotesArray scope := by
  constructor
  · intro h
    cases e with
    | arrayValue elements c => exact .value elements c
    | identifier name c =>
      obtain ⟨v, hv, ha⟩ := Option.any_eq_true _ _ |>.1 h
      exact .name c hv ha
    | literal | operator | distribution => cases h
  · rintro (⟨elements, c⟩ | ⟨c, hv, ha⟩)
    · rfl
    · simp [isArray, hv, ha]

theorem hasArrayOperand_iff {scope : Scope} {op : Op} {operands : List (String × Expr)} :
    Expr.hasArrayOperand scope op operands = true ↔ UsesArray scope op operands := by
  simp only [Expr.hasArrayOperand, UsesArray, List.any_eq_true, Bool.and_eq_true, Prod.exists,
    Bool.not_eq_true', Bool.and_eq_false_iff, beq_eq_false_iff_ne, Expr.isArray_iff, not_and_or]

theorem hasArrayOperand_eq_false_iff {scope : Scope} {op : Op} {operands : List (String × Expr)} :
    Expr.hasArrayOperand scope op operands = false ↔ ¬ UsesArray scope op operands := by
  rw [← hasArrayOperand_iff, Bool.not_eq_true]

theorem Comparable.usesArray {scope : Scope} {array : String} {elements : List Expr}
    {operands : List (String × Expr)} (h : Comparable scope array elements operands) :
    UsesArray scope .eq operands := by
  cases h.sides with
  | variableFirst r s c d => exact ⟨s, _, by simp, by simp, .value elements d⟩
  | valueFirst r s c d => exact ⟨r, _, by simp, by simp, .value elements c⟩

theorem expandComparison_eq_ok_iff_comparable {scope : Scope} {operands : List (String × Expr)}
    {e : Expr} :
    (expandComparison scope operands).outcome = .ok e ↔
      ∃ array elements, Comparable scope array elements operands ∧
        e = comparison array elements := by
  rw [expandComparison_eq_ok_iff]
  constructor
  · rintro ⟨array, elements, hs, hv, hc, hl, rfl⟩
    exact ⟨array, elements, ⟨hs, hv, hc, hl⟩, rfl⟩
  · rintro ⟨array, elements, ⟨hs, hv, hc, hl⟩, rfl⟩
    exact ⟨array, elements, hs, hv, hc, hl, rfl⟩

/-! ## Nodes of an expression -/

namespace Expr

/-- An operand of an operator, or an argument of a distribution. The elements of an array value do
not count. -/
inductive Part : Expr → Expr → Prop
  | operand {op : Op} {operands : List (String × Expr)} {c : Option String} {role : String}
      {e : Expr} : (role, e) ∈ operands → Part (.operator op operands c) e
  | argument {name : String} {args : List Expr} {c : Option String} {e : Expr} :
      e ∈ args → Part (.distribution name args c) e

/-- All nodes of the expression satisfy `P`, those inside array values left out. -/
def Everywhere (P : Expr → Prop) (e : Expr) : Prop := ∀ n, ReflTransGen Part e n → P n

/-- An equality that has an array among its operands. -/
def IsArrayEquality (scope : Scope) (e : Expr) : Prop :=
  ∃ operands c, e = .operator .eq operands c ∧ UsesArray scope .eq operands

/-- The node can be reached from the root without going below an equality of arrays, or into an
array value. -/
def Reaches (scope : Scope) : Expr → Expr → Prop :=
  ReflTransGen fun e x => ¬ e.IsArrayEquality scope ∧ Part e x

/-- The node is an operator without arrays, or it compares a vector with literals. -/
def Admitted (scope : Scope) : Expr → Prop
  | .operator op operands _ =>
    ¬ UsesArray scope op operands ∨
      op = .eq ∧ ∃ array elements, Comparable scope array elements operands
  | _ => True

/-- Arrays are used in the supported ways only. -/
def Supported (scope : Scope) (e : Expr) : Prop := ∀ n, e.Reaches scope n → n.Admitted scope

/-- The node is a comparison that normalization replaces. -/
def IsComparison (scope : Scope) (e : Expr) : Prop :=
  ∃ array elements operands c, e = .operator .eq operands c ∧
    Comparable scope array elements operands

/-- The node is no operator, or one without arrays. -/
def IsScalar (scope : Scope) : Expr → Prop
  | .operator op operands _ => ¬ UsesArray scope op operands
  | _ => True

mutual

/-- The second expression is the first one with its comparisons replaced. A replacement takes over
the comment. -/
inductive Rewrites (scope : Scope) : Expr → Expr → Prop
  | literal (v : Value) (c : Option String) : Rewrites scope (.literal v c) (.literal v c)
  | identifier (name : String) (c : Option String) :
      Rewrites scope (.identifier name c) (.identifier name c)
  | arrayValue (elements : List Expr) (c : Option String) :
      Rewrites scope (.arrayValue elements c) (.arrayValue elements c)
  | distribution (name : String) (c : Option String) {args args' : List Expr} :
      RewritesList scope args args' →
        Rewrites scope (.distribution name args c) (.distribution name args' c)
  | comparison (c : Option String) {array : String} {elements : List Expr}
      {operands : List (String × Expr)} : Comparable scope array elements operands →
        Rewrites scope (.operator .eq operands c)
          ((AutomataNet.comparison array elements).withComment c)
  | operator (op : Op) (c : Option String) {operands operands' : List (String × Expr)} :
      ¬ (Expr.operator op operands c).IsComparison scope →
        RewritesOperands scope operands operands' →
          Rewrites scope (.operator op operands c) (.operator op operands' c)

inductive RewritesList (scope : Scope) : List Expr → List Expr → Prop
  | nil : RewritesList scope [] []
  | cons {e e' : Expr} {es es' : List Expr} :
      Rewrites scope e e' → RewritesList scope es es' → RewritesList scope (e :: es) (e' :: es')

inductive RewritesOperands (scope : Scope) :
    List (String × Expr) → List (String × Expr) → Prop
  | nil : RewritesOperands scope [] []
  | cons (role : String) {e e' : Expr} {es es' : List (String × Expr)} :
      Rewrites scope e e' → RewritesOperands scope es es' →
        RewritesOperands scope ((role, e) :: es) ((role, e') :: es')

end

/-! ## From a node to its parts -/

theorem part_operator_iff {op : Op} {operands : List (String × Expr)} {c : Option String}
    {x : Expr} : Part (.operator op operands c) x ↔ ∃ role, (role, x) ∈ operands :=
  ⟨fun | .operand h => ⟨_, h⟩, fun ⟨_, h⟩ => .operand h⟩

theorem part_distribution_iff {name : String} {args : List Expr} {c : Option String} {x : Expr} :
    Part (.distribution name args c) x ↔ x ∈ args :=
  ⟨fun | .argument h => h, .argument⟩

theorem part_withComment_iff {e x : Expr} {c : Option String} :
    Part (e.withComment c) x ↔ Part e x := by
  cases e with
  | operator => simp only [withComment, part_operator_iff]
  | distribution => simp only [withComment, part_distribution_iff]
  | literal | identifier | arrayValue =>
    constructor
    · intro h
      cases h
    · intro h
      cases h

theorem forall_reflTransGen_iff {R : Expr → Expr → Prop} {P : Expr → Prop} {e : Expr} :
    (∀ n, ReflTransGen R e n → P n) ↔ P e ∧ ∀ x, R e x → ∀ n, ReflTransGen R x n → P n := by
  constructor
  · intro h
    exact ⟨h e .refl, fun x hx n hn => h n (.head hx hn)⟩
  · rintro ⟨he, hparts⟩ n hn
    rcases ReflTransGen.cases_head hn with rfl | ⟨x, hx, hn⟩
    · exact he
    · exact hparts x hx n hn

section Everywhere

variable {P : Expr → Prop}

theorem everywhere_iff {e : Expr} :
    e.Everywhere P ↔ P e ∧ ∀ x, Part e x → x.Everywhere P := forall_reflTransGen_iff

theorem everywhere_operator_iff {op : Op} {operands : List (String × Expr)} {c : Option String} :
    (Expr.operator op operands c).Everywhere P ↔
      P (.operator op operands c) ∧ ∀ p ∈ operands, p.2.Everywhere P := by
  simp only [everywhere_iff (e := .operator op operands c), part_operator_iff]
  constructor
  · rintro ⟨he, hops⟩
    exact ⟨he, fun p hp => hops p.2 ⟨p.1, hp⟩⟩
  · rintro ⟨he, hops⟩
    exact ⟨he, fun x ⟨role, hx⟩ => hops (role, x) hx⟩

theorem everywhere_distribution_iff {name : String} {args : List Expr} {c : Option String} :
    (Expr.distribution name args c).Everywhere P ↔
      P (.distribution name args c) ∧ ∀ x ∈ args, x.Everywhere P := by
  simp only [everywhere_iff (e := .distribution name args c), part_distribution_iff]

theorem everywhere_leaf {e : Expr} (hleaf : ∀ x, ¬ Part e x) (he : P e) : e.Everywhere P :=
  everywhere_iff.2 ⟨he, fun x hx => absurd hx (hleaf x)⟩

theorem everywhere_lit {v : Value} (h : P (lit v)) : (lit v).Everywhere P :=
  everywhere_leaf (fun _ => nofun) h

theorem everywhere_var {name : String} (h : P (var name)) : (var name).Everywhere P :=
  everywhere_leaf (fun _ => nofun) h

theorem everywhere_binary {op : Op} {l r : Expr} (h : P (binary op l r)) (hl : l.Everywhere P)
    (hr : r.Everywhere P) : (binary op l r).Everywhere P :=
  everywhere_operator_iff.2 ⟨h, by simpa using ⟨hl, hr⟩⟩

theorem Everywhere.mono {Q : Expr → Prop} {e : Expr} (h : e.Everywhere P) (hPQ : ∀ n, P n → Q n) :
    e.Everywhere Q := fun n hn => hPQ n (h n hn)

end Everywhere

/-! ## Acceptance -/

section Accepted

variable {scope : Scope}

theorem supported_distribution_iff {name : String} {args : List Expr} {c : Option String} :
    (Expr.distribution name args c).Supported scope ↔ ∀ x ∈ args, x.Supported scope := by
  have hkept : ¬ (Expr.distribution name args c).IsArrayEquality scope := by
    rintro ⟨_, _, h, _⟩
    cases h
  refine forall_reflTransGen_iff.trans ⟨fun h x hx => h.2 x ⟨hkept, .argument hx⟩, fun h => ?_⟩
  exact ⟨trivial, fun x hx => h x (part_distribution_iff.1 hx.2)⟩

/-- Below an equality of arrays nothing is asked. -/
theorem supported_operator_iff {op : Op} {operands : List (String × Expr)} {c : Option String} :
    (Expr.operator op operands c).Supported scope ↔
      (¬ UsesArray scope op operands ∧ ∀ p ∈ operands, p.2.Supported scope) ∨
      (op = .eq ∧ ∃ array elements, Comparable scope array elements operands) := by
  refine forall_reflTransGen_iff.trans ?_
  constructor
  · rintro ⟨hroot, hparts⟩
    by_cases ha : UsesArray scope op operands
    · exact .inr (hroot.resolve_left (not_not_intro ha))
    · refine .inl ⟨ha, fun p hp => hparts p.2 ⟨?_, part_operator_iff.2 ⟨p.1, hp⟩⟩⟩
      rintro ⟨_, _, h, hu⟩
      cases h
      exact ha hu
  · rintro (⟨ha, hops⟩ | ⟨rfl, array, elements, hc⟩)
    · refine ⟨.inl ha, fun x hx => ?_⟩
      obtain ⟨role, hmem⟩ := part_operator_iff.1 hx.2
      exact hops (role, x) hmem
    · exact ⟨.inr ⟨rfl, array, elements, hc⟩,
        fun x hx => absurd ⟨operands, c, rfl, hc.usesArray⟩ hx.1⟩

theorem supported_leaf {e : Expr} (hleaf : ∀ x, ¬ Part e x) (he : e.Admitted scope) :
    e.Supported scope :=
  forall_reflTransGen_iff.2 ⟨he, fun x hx => absurd hx.2 (hleaf x)⟩

mutual

/-- The recursion of normalization goes exactly where `Reaches` does. -/
theorem normalize_ok_iff_supported : ∀ e : Expr,
    (∃ e', (e.normalize scope).outcome = .ok e') ↔ e.Supported scope
  | .literal v c => ⟨fun _ => supported_leaf (fun _ => nofun) trivial, fun _ => ⟨_, rfl⟩⟩
  | .identifier name c => ⟨fun _ => supported_leaf (fun _ => nofun) trivial, fun _ => ⟨_, rfl⟩⟩
  | .arrayValue es c => ⟨fun _ => supported_leaf (fun _ => nofun) trivial, fun _ => ⟨_, rfl⟩⟩
  | .distribution name args c => by
    rw [supported_distribution_iff, ← normalizeList_ok_iff_supported args]
    simp only [normalize, Report.outcome_bind, Report.outcome_pure, Except.bind_eq_ok_iff]
    exact ⟨fun ⟨_, args', hargs, _⟩ => ⟨args', hargs⟩, fun ⟨args', hargs⟩ => ⟨_, args', hargs, rfl⟩⟩
  | .operator op operands c => by
    rw [supported_operator_iff, ← normalizeOperands_ok_iff_supported operands]
    simp only [normalize_operator_eq_ok_iff, hasArrayOperand_eq_false_iff, hasArrayOperand_iff,
      expandComparison_eq_ok_iff_comparable]
    constructor
    · rintro ⟨e', ⟨ha, operands', hops, -⟩ | ⟨-, ho, _, ⟨array, elements, hc, -⟩, -⟩⟩
      · exact .inl ⟨ha, operands', hops⟩
      · exact .inr ⟨ho, array, elements, hc⟩
    · rintro (⟨ha, operands', hops⟩ | ⟨rfl, array, elements, hc⟩)
      · exact ⟨_, .inl ⟨ha, operands', hops, rfl⟩⟩
      · exact ⟨_, .inr ⟨hc.usesArray, rfl, _, ⟨array, elements, hc, rfl⟩, rfl⟩⟩

theorem normalizeList_ok_iff_supported : ∀ es : List Expr,
    (∃ es', (normalizeList scope es).outcome = .ok es') ↔ ∀ x ∈ es, x.Supported scope
  | [] => ⟨fun _ => nofun, fun _ => ⟨[], rfl⟩⟩
  | e :: es => by
    rw [List.forall_mem_cons, ← normalize_ok_iff_supported e, ← normalizeList_ok_iff_supported es]
    simp only [normalizeList, Report.outcome_bind, Report.outcome_pure, Except.bind_eq_ok_iff]
    exact ⟨fun ⟨_, x, hx, xs, hxs, _⟩ => ⟨⟨x, hx⟩, xs, hxs⟩,
      fun ⟨⟨x, hx⟩, xs, hxs⟩ => ⟨_, x, hx, xs, hxs, rfl⟩⟩

theorem normalizeOperands_ok_iff_supported : ∀ es : List (String × Expr),
    (∃ es', (normalizeOperands scope es).outcome = .ok es') ↔ ∀ p ∈ es, p.2.Supported scope
  | [] => ⟨fun _ => nofun, fun _ => ⟨[], rfl⟩⟩
  | (role, e) :: es => by
    rw [List.forall_mem_cons, ← normalize_ok_iff_supported e,
      ← normalizeOperands_ok_iff_supported es]
    simp only [normalizeOperands, Report.outcome_bind, Report.outcome_pure, Except.bind_eq_ok_iff]
    exact ⟨fun ⟨_, x, hx, xs, hxs, _⟩ => ⟨⟨x, hx⟩, xs, hxs⟩,
      fun ⟨⟨x, hx⟩, xs, hxs⟩ => ⟨_, x, hx, xs, hxs, rfl⟩⟩

end

end Accepted

/-! ## The result -/

section Result

variable {scope : Scope}

mutual

theorem rewrites_of_normalize : ∀ {e e' : Expr},
    (e.normalize scope).outcome = .ok e' → e.Rewrites scope e'
  | .literal v c, e', h => by
    obtain rfl := Except.ok.inj h
    exact .literal v c
  | .identifier name c, e', h => by
    obtain rfl := Except.ok.inj h
    exact .identifier name c
  | .arrayValue es c, e', h => by
    obtain rfl := Except.ok.inj h
    exact .arrayValue es c
  | .distribution name args c, e', h => by
    simp only [normalize, Report.outcome_bind, Report.outcome_pure, Except.bind_eq_ok_iff,
      Except.ok.injEq] at h
    obtain ⟨args', hargs, rfl⟩ := h
    exact .distribution name c (rewritesList_of_normalizeList hargs)
  | .operator op operands c, e', h => by
    rcases normalize_operator_eq_ok_iff.1 h with
      ⟨hno, operands', hops, rfl⟩ | ⟨-, rfl, e₀, he, rfl⟩
    · refine .operator op c ?_ (rewritesOperands_of_normalizeOperands hops)
      rintro ⟨_, _, _, _, heq, hc⟩
      cases heq
      exact hasArrayOperand_eq_false_iff.1 hno hc.usesArray
    · obtain ⟨array, elements, hc, rfl⟩ := expandComparison_eq_ok_iff_comparable.1 he
      exact .comparison c hc

theorem rewritesList_of_normalizeList : ∀ {es es' : List Expr},
    (normalizeList scope es).outcome = .ok es' → RewritesList scope es es'
  | [], es', h => by
    obtain rfl := Except.ok.inj h
    exact .nil
  | e :: es, es', h => by
    simp only [normalizeList, Report.outcome_bind, Report.outcome_pure, Except.bind_eq_ok_iff,
      Except.ok.injEq] at h
    obtain ⟨x, hx, xs, hxs, rfl⟩ := h
    exact .cons (rewrites_of_normalize hx) (rewritesList_of_normalizeList hxs)

theorem rewritesOperands_of_normalizeOperands : ∀ {es es' : List (String × Expr)},
    (normalizeOperands scope es).outcome = .ok es' → RewritesOperands scope es es'
  | [], es', h => by
    obtain rfl := Except.ok.inj h
    exact .nil
  | (role, e) :: es, es', h => by
    simp only [normalizeOperands, Report.outcome_bind, Report.outcome_pure, Except.bind_eq_ok_iff,
      Except.ok.injEq] at h
    obtain ⟨x, hx, xs, hxs, rfl⟩ := h
    exact .cons role (rewrites_of_normalize hx) (rewritesOperands_of_normalizeOperands hxs)

end

/-- There is no comparison that normalization would replace. -/
def Untouched (scope : Scope) (e : Expr) : Prop := ∀ n, e.Reaches scope n → ¬ n.IsComparison scope

theorem Untouched.argument {name : String} {args : List Expr} {c : Option String}
    (h : (Expr.distribution name args c).Untouched scope) : ∀ x ∈ args, x.Untouched scope := by
  intro x hx n hn
  refine h n (.head ⟨?_, .argument hx⟩ hn)
  rintro ⟨_, _, heq, _⟩
  cases heq

theorem Untouched.operand {op : Op} {operands : List (String × Expr)} {c : Option String}
    (h : (Expr.operator op operands c).Untouched scope) (ha : ¬ UsesArray scope op operands) :
    ∀ p ∈ operands, p.2.Untouched scope := by
  intro p hp n hn
  refine h n (.head ⟨?_, part_operator_iff.2 ⟨p.1, hp⟩⟩ hn)
  rintro ⟨_, _, heq, hu⟩
  cases heq
  exact ha hu

mutual

theorem eq_of_untouched : ∀ {e e' : Expr}, e.Untouched scope →
    (e.normalize scope).outcome = .ok e' → e' = e
  | .literal .., e', _, h | .identifier .., e', _, h | .arrayValue .., e', _, h =>
    (Except.ok.inj h).symm
  | .distribution name args c, e', hu, h => by
    simp only [normalize, Report.outcome_bind, Report.outcome_pure, Except.bind_eq_ok_iff,
      Except.ok.injEq] at h
    obtain ⟨args', hargs, rfl⟩ := h
    rw [list_eq_of_untouched hu.argument hargs]
  | .operator op operands c, e', hu, h => by
    rcases normalize_operator_eq_ok_iff.1 h with
      ⟨hno, operands', hops, rfl⟩ | ⟨-, rfl, e₀, he, rfl⟩
    · rw [operands_eq_of_untouched (hu.operand (hasArrayOperand_eq_false_iff.1 hno)) hops]
    · obtain ⟨array, elements, hc, rfl⟩ := expandComparison_eq_ok_iff_comparable.1 he
      exact absurd ⟨array, elements, operands, c, rfl, hc⟩ (hu _ .refl)

theorem list_eq_of_untouched : ∀ {es es' : List Expr}, (∀ x ∈ es, x.Untouched scope) →
    (normalizeList scope es).outcome = .ok es' → es' = es
  | [], es', _, h => (Except.ok.inj h).symm
  | e :: es, es', hu, h => by
    simp only [normalizeList, Report.outcome_bind, Report.outcome_pure, Except.bind_eq_ok_iff,
      Except.ok.injEq] at h
    obtain ⟨x, hx, xs, hxs, rfl⟩ := h
    obtain ⟨he, hes⟩ := List.forall_mem_cons.1 hu
    rw [eq_of_untouched he hx, list_eq_of_untouched hes hxs]

theorem operands_eq_of_untouched : ∀ {es es' : List (String × Expr)},
    (∀ p ∈ es, p.2.Untouched scope) → (normalizeOperands scope es).outcome = .ok es' → es' = es
  | [], es', _, h => (Except.ok.inj h).symm
  | (role, e) :: es, es', hu, h => by
    simp only [normalizeOperands, Report.outcome_bind, Report.outcome_pure, Except.bind_eq_ok_iff,
      Except.ok.injEq] at h
    obtain ⟨x, hx, xs, hxs, rfl⟩ := h
    obtain ⟨he, hes⟩ := List.forall_mem_cons.1 hu
    rw [eq_of_untouched he hx, operands_eq_of_untouched hes hxs]

end

/-- The operator is the length test of a vector. -/
def IsLengthTest (scope : Scope) (op : Op) (operands : List (String × Expr)) : Prop :=
  op = .eq ∧ ∃ array n, scope.IsVector array ∧
    operands = [("left", var (lengthName array 1)), ("right", ofInt n)]

/-- Only a length test may still name an array, if the companion is one. -/
def IsReduced (scope : Scope) : Expr → Prop
  | .operator op operands _ => ¬ UsesArray scope op operands ∨ IsLengthTest scope op operands
  | _ => True

theorem not_usesArray_binary {op : Op} {l r : Expr} (hl : ¬ l.DenotesArray scope)
    (hr : ¬ r.DenotesArray scope) : ¬ UsesArray scope op [("left", l), ("right", r)] := by
  rintro ⟨role, e, hmem, -, he⟩
  rcases List.mem_pair.1 hmem with h | h
  · exact hl ((Prod.mk.inj h).2 ▸ he)
  · exact hr ((Prod.mk.inj h).2 ▸ he)

theorem not_denotesArray_literal {e : Expr} (h : e.literal?.isSome = true) :
    ¬ e.DenotesArray scope := by
  rintro (_ | _) <;> cases h

/-- The test of one cell. -/
theorem isReduced_cell {x : Expr} (hx : x.literal?.isSome = true) (array : String) (i : Int64) :
    (equal x (access (var array) (ofInt i))).Everywhere (IsReduced scope) := by
  have haccess : (access (var array) (ofInt i)).Everywhere (IsReduced scope) := by
    refine everywhere_operator_iff.2 ⟨.inl ?_, ?_⟩
    · rintro ⟨role, e, hmem, hrole, he⟩
      rcases List.mem_pair.1 hmem with h | h
      · exact hrole ⟨rfl, (Prod.mk.inj h).1⟩
      · obtain rfl := (Prod.mk.inj h).2
        exact not_denotesArray_literal rfl he
    · simpa using ⟨everywhere_var trivial, everywhere_lit trivial⟩
  refine everywhere_binary (.inl ?_) ?_ haccess
  · exact not_usesArray_binary (not_denotesArray_literal hx) nofun
  · cases x <;> simp [literal?] at hx
    exact everywhere_leaf (fun _ => nofun) trivial

theorem isReduced_comparison {array : String} {elements : List Expr} (hv : scope.IsVector array)
    (hl : ∀ x ∈ elements, x.literal?.isSome = true) :
    (comparison array elements).Everywhere (IsReduced scope) := by
  have hstart : (equal (var (lengthName array 1))
      (ofInt (Int64.ofNat elements.length))).Everywhere (IsReduced scope) :=
    everywhere_binary (.inr ⟨rfl, array, _, hv, rfl⟩) (everywhere_var trivial)
      (everywhere_lit trivial)
  -- the conjunction so far is an operator, and so no array
  refine (List.foldlRecOn (motive := fun e : Expr =>
    (∃ op operands c, e = .operator op operands c) ∧ e.Everywhere (IsReduced scope)) _ _
    ⟨⟨_, _, _, rfl⟩, hstart⟩ ?_).2
  rintro _ ⟨⟨op, operands, c, rfl⟩, he⟩ ⟨x, i⟩ hx
  have hx : x ∈ elements := List.mem_of_getElem? (List.mk_mem_zipIdx_iff_getElem?.1 hx)
  have hcell : (equal x (access (var array) (ofInt (.ofNat i)))).Everywhere (IsReduced scope) :=
    isReduced_cell (hl x hx) array _
  exact ⟨⟨_, _, _, rfl⟩, everywhere_binary (.inl (not_usesArray_binary nofun nofun)) he hcell⟩

theorem Everywhere.withComment {e : Expr} (h : e.Everywhere (IsReduced scope))
    (c : Option String) : (e.withComment c).Everywhere (IsReduced scope) := by
  rw [everywhere_iff] at h ⊢
  refine ⟨?_, fun x hx => h.2 x (part_withComment_iff.1 hx)⟩
  cases e <;> exact h.1

mutual

theorem isReduced_of_normalize : ∀ {e e' : Expr},
    (e.normalize scope).outcome = .ok e' → e'.Everywhere (IsReduced scope)
  | .literal .., e', h | .identifier .., e', h | .arrayValue .., e', h => by
    obtain rfl := Except.ok.inj h
    exact everywhere_leaf (fun _ => nofun) trivial
  | .distribution name args c, e', h => by
    simp only [normalize, Report.outcome_bind, Report.outcome_pure, Except.bind_eq_ok_iff,
      Except.ok.injEq] at h
    obtain ⟨args', hargs, rfl⟩ := h
    exact everywhere_distribution_iff.2 ⟨trivial, isReduced_of_normalizeList hargs⟩
  | .operator op operands c, e', h => by
    rcases normalize_operator_eq_ok_iff.1 h with
      ⟨hno, operands', hops, rfl⟩ | ⟨-, rfl, e₀, he, rfl⟩
    · rw [← hasArrayOperand_normalizeOperands hops, hasArrayOperand_eq_false_iff] at hno
      exact everywhere_operator_iff.2 ⟨.inl hno, isReduced_of_normalizeOperands hops⟩
    · obtain ⟨array, elements, hc, rfl⟩ := expandComparison_eq_ok_iff_comparable.1 he
      exact (isReduced_comparison hc.vector hc.literals).withComment c

theorem isReduced_of_normalizeList : ∀ {es es' : List Expr},
    (normalizeList scope es).outcome = .ok es' → ∀ x ∈ es', x.Everywhere (IsReduced scope)
  | [], es', h => by
    obtain rfl := Except.ok.inj h
    nofun
  | e :: es, es', h => by
    simp only [normalizeList, Report.outcome_bind, Report.outcome_pure, Except.bind_eq_ok_iff,
      Except.ok.injEq] at h
    obtain ⟨x, hx, xs, hxs, rfl⟩ := h
    exact List.forall_mem_cons.2 ⟨isReduced_of_normalize hx, isReduced_of_normalizeList hxs⟩

theorem isReduced_of_normalizeOperands : ∀ {es es' : List (String × Expr)},
    (normalizeOperands scope es).outcome = .ok es' → ∀ p ∈ es', p.2.Everywhere (IsReduced scope)
  | [], es', h => by
    obtain rfl := Except.ok.inj h
    nofun
  | (role, e) :: es, es', h => by
    simp only [normalizeOperands, Report.outcome_bind, Report.outcome_pure, Except.bind_eq_ok_iff,
      Except.ok.injEq] at h
    obtain ⟨x, hx, xs, hxs, rfl⟩ := h
    exact List.forall_mem_cons.2 ⟨isReduced_of_normalize hx, isReduced_of_normalizeOperands hxs⟩

end

theorem IsReduced.isScalar (hs : scope.PlainLengths) {n : Expr} (h : n.IsReduced scope) :
    n.IsScalar scope := by
  cases n with
  | operator op operands c =>
    rcases h with h | ⟨rfl, array, k, hv, rfl⟩
    · exact h
    · refine not_usesArray_binary ?_ (not_denotesArray_literal rfl)
      rw [← isArray_iff, hs.isArray_length hv]
      exact Bool.false_ne_true
  | literal | identifier | arrayValue | distribution => trivial

end Result

end Expr

/-- Normalization accepts exactly the supported expressions. It replaces the comparisons and keeps
everything else, so that an expression without comparisons comes back as it was. If no companion of
an array is an array, then no operator of the result has an array among its operands. -/
theorem normalize_accepts_supported (scope : Scope) (e : Expr) :
    ((∃ e', (e.normalize scope).outcome = .ok e') ↔ e.Supported scope) ∧
    ∀ e', (e.normalize scope).outcome = .ok e' →
      e.Rewrites scope e' ∧
      ((∀ n, e.Reaches scope n → ¬ n.IsComparison scope) → e' = e) ∧
      (scope.PlainLengths → e'.Everywhere (Expr.IsScalar scope)) := by
  refine ⟨Expr.normalize_ok_iff_supported e, fun e' h => ⟨Expr.rewrites_of_normalize h, ?_, ?_⟩⟩
  · intro hu
    exact Expr.eq_of_untouched hu h
  · intro hs
    exact (Expr.isReduced_of_normalize h).mono fun n => Expr.IsReduced.isScalar hs

/-- What is visible of the shelf. -/
def shelfScope : Scope := { globals := Model.shelf.globals }

/-- The seventh book is the only one. -/
def lastBook (comment : Option String) : Expr :=
  .operator .eq [("left", .var "books"), ("right", .arrayValue [.ofInt 7] none)] comment

/-- A comparison below a negation is accepted and replaced, inside an array value it is left alone,
and an inequality of arrays is refused. -/
theorem normalize_accepts_supported_shelf :
    (shelfScope.PlainLengths ∧ (Expr.neg (lastBook (some "last"))).Supported shelfScope ∧
      ∃ e', ((Expr.neg (lastBook (some "last"))).normalize shelfScope).outcome = .ok e' ∧
        e' = .neg ((comparison "books" [.ofInt 7]).withComment (some "last")) ∧
        (Expr.neg (lastBook (some "last"))).Rewrites shelfScope e' ∧
        e'.Everywhere (Expr.IsScalar shelfScope)) ∧
    (∃ e', ((Expr.arrayValue [lastBook none] none).normalize shelfScope).outcome = .ok e' ∧
      (∀ n, (Expr.arrayValue [lastBook none] none).Reaches shelfScope n →
        ¬ n.IsComparison shelfScope) ∧ e' = .arrayValue [lastBook none] none) ∧
    ¬ (Expr.binary .neq (.var "books") (.arrayValue [.ofInt 7] none)).Supported shelfScope := by
  have hplain : shelfScope.PlainLengths := Model.shelf_plainLengths.properties
  have hnone : ∀ n, (Expr.arrayValue [lastBook none] none).Reaches shelfScope n →
      ¬ n.IsComparison shelfScope := by
    intro n hn hc
    rcases Relation.ReflTransGen.cases_head hn with rfl | ⟨x, hx, -⟩
    · obtain ⟨_, _, _, _, h, _⟩ := hc
      cases h
    · cases hx.2
  refine ⟨⟨hplain, ?_, _, rfl, rfl, ?_⟩, ⟨_, rfl, hnone, ?_⟩, ?_⟩
  · exact (normalize_accepts_supported shelfScope _).1.1 ⟨_, rfl⟩
  · obtain ⟨hrewrites, -, hscalar⟩ :=
      (normalize_accepts_supported shelfScope (.neg (lastBook (some "last")))).2 _ rfl
    exact ⟨hrewrites, hscalar hplain⟩
  · exact ((normalize_accepts_supported shelfScope _).2 _ rfl).2.1 hnone
  · rw [← (normalize_accepts_supported shelfScope _).1]
    rintro ⟨e', he'⟩
    cases he'

end AutomataNet
