import AutomataNet.Proofs.Nesting
import AutomataNet.Proofs.Supported
/-!
# Chains of operators

Conjunctions and disjunctions are built as chains that nest to the left, so they are as deep as they
are long. In a normal form each comparison with an array value is such a chain, and so the normal
form may be deeper by the number of elements (`Expr.depth_normalize`).
-/

namespace AutomataNet

/-! ## Expressions -/

namespace Expr

/-- The largest number of elements among the array values of some operands. -/
def widest (operands : List (String × Expr)) : Nat :=
  (operands.map (·.2.elements.length)).max?.getD 0

mutual

/-- The largest number of elements that an equality in the expression compares with. -/
def compared : Expr → Nat
  | .operator op operands _ =>
    max (if op = .eq then widest operands else 0) (operandsCompared operands)
  | .distribution _ args _ => listCompared args
  | _ => 0

def listCompared : List Expr → Nat
  | [] => 0
  | e :: es => max (compared e) (listCompared es)

def operandsCompared : List (String × Expr) → Nat
  | [] => 0
  | (_, e) :: es => max (compared e) (operandsCompared es)

end

theorem depth_toJson_binary (op : Op) (left right : Expr) :
    (binary op left right).toJson.depth = max left.toJson.depth right.toJson.depth + 1 := by
  simp [binary, depth_toJson_operator, operandsToJson, Json.depthFields]

theorem depth_toJson_neg (e : Expr) : (neg e).toJson.depth = e.toJson.depth + 1 := by
  simp [neg, depth_toJson_operator, operandsToJson, Json.depthFields]

theorem depth_toJson_withComment (c : Option String) (e : Expr) :
    (e.withComment c).toJson.depth = e.toJson.depth := by
  cases e with
  | literal | identifier => rfl
  | operator => simp only [withComment, depth_toJson_operator]
  | arrayValue => simp only [withComment, depth_toJson_arrayValue]
  | distribution => simp only [withComment, depth_toJson_distribution]

theorem depth_toJson_literal {e : Expr} (h : e.literal?.isSome = true) : e.toJson.depth ≤ 1 := by
  cases e with
  | literal v c =>
    cases v with
    | constant c => exact le_rfl
    | bool | int | real => exact Nat.zero_le _
  | identifier | operator | arrayValue | distribution => contradiction

/-- A chain nested to the left is as deep as it is long. -/
theorem depth_toJson_foldl_binary {op : Op} {es : List Expr} {k : Nat}
    (h : ∀ e ∈ es, e.toJson.depth ≤ k) {first : Expr} (hfirst : first.toJson.depth ≤ k) :
    (es.foldl (binary op) first).toJson.depth ≤ k + es.length := by
  suffices hlevel : ∀ j, first.toJson.depth ≤ k + j →
      (es.foldl (binary op) first).toJson.depth ≤ k + j + es.length from hlevel 0 hfirst
  intro j hj
  clear hfirst
  induction es generalizing first j with
  | nil => exact hj
  | cons e es ih =>
    obtain ⟨he, hes⟩ := List.forall_mem_cons.1 h
    have hstep : (binary op first e).toJson.depth ≤ k + (j + 1) := by
      rw [depth_toJson_binary]
      omega
    have hrest := ih hes (j + 1) hstep
    rw [List.foldl_cons, List.length_cons]
    omega

theorem compared_foldl_disj {es : List Expr} {c : Nat} (h : ∀ e ∈ es, e.compared ≤ c) {first : Expr}
    (hfirst : first.compared ≤ c) : (es.foldl disj first).compared ≤ c := by
  induction es generalizing first with
  | nil => exact hfirst
  | cons e es ih =>
    obtain ⟨he, hes⟩ := List.forall_mem_cons.1 h
    apply ih hes
    simp [disj, binary, compared, operandsCompared, hfirst, he]

end Expr

/-! ## Normal forms -/

/-- There is one link for each element, and one for the length. -/
theorem depth_comparison (array : String) {elements : List Expr}
    (h : ∀ e ∈ elements, e.literal?.isSome = true) :
    (comparison array elements).toJson.depth ≤ elements.length + 2 := by
  let link : Expr × Nat → Expr := fun p =>
    .equal p.1 (.access (.var array) (.ofInt (Int64.ofNat p.2)))
  have hchain : comparison array elements = (elements.zipIdx.map link).foldl (.binary .and)
      (.equal (.var (lengthName array 1)) (.ofInt (Int64.ofNat elements.length))) := by
    rw [List.foldl_map]
    rfl
  have hlinks : ∀ e ∈ elements.zipIdx.map link, e.toJson.depth ≤ 2 := by
    intro e he
    obtain ⟨⟨e, i⟩, hmem, rfl⟩ := List.mem_map.1 he
    have hliteral := Expr.depth_toJson_literal (h e (List.fst_mem_of_mem_zipIdx hmem))
    have hcell : (Expr.access (.var array) (.ofInt (Int64.ofNat i))).toJson.depth = 1 := rfl
    change (Expr.binary .eq e (.access (.var array) (.ofInt (Int64.ofNat i)))).toJson.depth ≤ 2
    rw [Expr.depth_toJson_binary]
    omega
  have hlength : (Expr.equal (.var (lengthName array 1))
      (.ofInt (Int64.ofNat elements.length))).toJson.depth ≤ 2 := Nat.le_succ 1
  calc (comparison array elements).toJson.depth
      ≤ 2 + (elements.zipIdx.map link).length := by
        rw [hchain]
        exact Expr.depth_toJson_foldl_binary hlinks hlength
    _ = elements.length + 2 := by simp [Nat.add_comm]

/-- An equality with an array value holds three containers, down to its elements. -/
theorem Compares.depth_toJson {array : String} {elements : List Expr}
    {operands : List (String × Expr)} (h : Compares array elements operands) (op : Op)
    (c : Option String) : 3 ≤ (Expr.operator op operands c).toJson.depth := by
  rw [Expr.depth_toJson_operator]
  cases h with
  | variableFirst | valueFirst =>
    simp only [Expr.operandsToJson, Json.depthFields, Expr.depth_toJson_arrayValue]
    omega

theorem Compares.length_le_widest {array : String} {elements : List Expr}
    {operands : List (String × Expr)} (h : Compares array elements operands) :
    elements.length ≤ Expr.widest operands := by
  apply List.le_max?_getD_of_mem
  cases h with
  | variableFirst | valueFirst => simp [Expr.elements]

namespace Expr

variable {scope : Scope} {n : Nat}

mutual

theorem depth_normalize : ∀ {e e' : Expr}, (e.normalize scope).outcome = .ok e' →
    e.compared ≤ n + 1 → e'.toJson.depth ≤ e.toJson.depth + n
  | .literal .., _, h, _ => by cases h; exact Nat.le_add_right ..
  | .identifier .., _, h, _ => by cases h; exact Nat.le_add_right ..
  | .arrayValue .., _, h, _ => by cases h; exact Nat.le_add_right ..
  | .distribution name args c, _, h, hc => by
    rw [normalize, Report.outcome_bind] at h
    obtain ⟨args', hargs, h⟩ := Except.bind_eq_ok_iff.1 h
    obtain rfl := Except.ok.inj h
    have hdepth := depth_normalizeList hargs hc
    rw [depth_toJson_distribution, depth_toJson_distribution]
    omega
  | .operator op operands c, _, h, hc => by
    obtain ⟨hwidest, hoperands⟩ := max_le_iff.1 hc
    rcases normalize_operator_eq_ok_iff.1 h with ⟨-, operands', hops, rfl⟩ | ⟨-, rfl, e₀, he, rfl⟩
    · have hdepth := depth_normalizeOperands hops hoperands
      rw [depth_toJson_operator, depth_toJson_operator]
      omega
    · -- the three containers of the equality make room for a chain of one element
      obtain ⟨array, elements, hcomp, rfl⟩ := expandComparison_eq_ok_iff_comparable.1 he
      have hchain := depth_comparison array hcomp.literals
      have hthree := hcomp.sides.depth_toJson .eq c
      have hlength := hcomp.sides.length_le_widest
      rw [if_pos rfl] at hwidest
      rw [depth_toJson_withComment]
      omega

theorem depth_normalizeList : ∀ {es es' : List Expr},
    (normalizeList scope es).outcome = .ok es' → listCompared es ≤ n + 1 →
      Json.depthItems (listToJson es') ≤ Json.depthItems (listToJson es) + n
  | [], _, h, _ => by cases h; exact Nat.le_add_right ..
  | e :: es, _, h, hc => by
    obtain ⟨he, hes⟩ := max_le_iff.1 hc
    rw [normalizeList, Report.outcome_bind] at h
    obtain ⟨x, hx, h⟩ := Except.bind_eq_ok_iff.1 h
    rw [Report.outcome_bind] at h
    obtain ⟨xs, hxs, h⟩ := Except.bind_eq_ok_iff.1 h
    obtain rfl := Except.ok.inj h
    have hfirst := depth_normalize hx he
    have hrest := depth_normalizeList hxs hes
    simp only [listToJson, Json.depthItems]
    omega

theorem depth_normalizeOperands : ∀ {es es' : List (String × Expr)},
    (normalizeOperands scope es).outcome = .ok es' → operandsCompared es ≤ n + 1 →
      Json.depthFields (operandsToJson es') ≤ Json.depthFields (operandsToJson es) + n
  | [], _, h, _ => by cases h; exact Nat.le_add_right ..
  | (role, e) :: es, _, h, hc => by
    obtain ⟨he, hes⟩ := max_le_iff.1 hc
    rw [normalizeOperands, Report.outcome_bind] at h
    obtain ⟨x, hx, h⟩ := Except.bind_eq_ok_iff.1 h
    rw [Report.outcome_bind] at h
    obtain ⟨xs, hxs, h⟩ := Except.bind_eq_ok_iff.1 h
    obtain rfl := Except.ok.inj h
    have hfirst := depth_normalize hx he
    have hrest := depth_normalizeOperands hxs hes
    simp only [operandsToJson, Json.depthFields]
    omega

end

end Expr

theorem Property.depth_normalizeExpr {scope : Scope} {n : Nat} {e e' : Expr}
    (h : (normalizeExpr scope e).outcome = .ok e') (hc : e.compared ≤ n + 1) :
    e'.toJson.depth ≤ e.toJson.depth + n := by
  cases e with
  | literal | identifier | arrayValue | distribution =>
    have hnormal : (Expr.normalize scope _).outcome = .ok e' := h
    exact Expr.depth_normalize hnormal hc
  | operator op operands c =>
    rw [normalizeExpr, Report.outcome_bind] at h
    obtain ⟨operands', hops, h⟩ := Except.bind_eq_ok_iff.1 h
    obtain rfl := Except.ok.inj h
    have hdepth := Expr.depth_normalizeOperands hops (max_le_iff.1 hc).2
    rw [Expr.depth_toJson_operator, Expr.depth_toJson_operator]
    omega

end AutomataNet
