import AutomataNet.Proofs.Declarations
import AutomataNet.Proofs.Evaluation
import AutomataNet.Proofs.NormalForm
/-!
# Normal forms mean what they replace

The equality of an array variable with an array value says that the part of the array in use is
the list of the elements. Its replacement says so cell by cell. The two agree in every store where
the companion of the array holds a length within the backing store (`eval_comparison`), so an
expression and its normal form agree (`normalize_preserves_meaning`).
-/

namespace AutomataNet

/-! ## What a comparison over the cells means -/

namespace Interpretation

variable {α : Type} (I : Interpretation α)

/-- The first cells of an array, read one by one. -/
theorem map_cell_range (cells : List (Datum α)) {n : Nat} (h : n ≤ cells.length) :
    (List.range' 0 n).map (fun i : Nat => I.cell cells i) = cells.take n := by
  apply List.ext_getElem
  · simp [h]
  · intro i hi hi'
    have hlt : i < cells.length := by simp at hi; omega
    simp [cell, List.getD_eq_getElem?_getD, hlt]

variable [DecidableEq α] (σ : Store α)

/-- The conjunction that compares elements with the cells from position `k` on. -/
theorem eval_foldl_cells {array : String} {cells : List (Datum α)} (ha : σ array = .array cells)
    {elements : List Expr} (hl : ∀ e ∈ elements, e.literal?.isSome = true) :
    ∀ (k : Nat) (acc : Expr) (b : Bool), k + elements.length < 2 ^ 63 → I.eval σ acc = .bool b →
      I.eval σ ((elements.zipIdx k).foldl (fun conjunction (e, i) =>
        .conj conjunction (.equal e (.access (.var array) (.ofInt (Int64.ofNat i))))) acc) =
      .bool (b && elements.map (I.eval σ) =
        (List.range' k elements.length).map (fun i : Nat => I.cell cells i)) := by
  induction elements with
  | nil => intro k acc b _ hb; simpa using hb
  | cons e es ih =>
    intro k acc b hk hb
    obtain ⟨v, c, rfl⟩ : ∃ v c, e = .literal v c := by
      have := hl e (by simp)
      cases e <;> simp_all [Expr.literal?]
    have hcell : I.eval σ (.access (.var array) (.ofInt (Int64.ofNat k))) = I.cell cells k := by
      rw [I.eval_access σ (by simpa using ha) (I.eval_ofInt σ _),
        Int64.toInt_ofNat_of_lt (by simp at hk; omega)]
    have heq : I.eval σ (.equal (.literal v c) (.access (.var array) (.ofInt (Int64.ofNat k)))) =
        .bool (I.literal v = I.cell cells k) := by
      rw [I.eval_equal σ rfl, hcell]
      rfl
    simp only [List.zipIdx_cons, List.foldl_cons]
    rw [ih (fun x hx => hl x (by simp [hx])) (k + 1) _ _ (by simp at hk; omega)
      (I.eval_conj σ hb heq)]
    simp [List.range'_succ, Bool.and_assoc, eval]

/-- A comparison over the cells says what the equality it replaces says. -/
theorem eval_comparison {array : String} {cells : List (Datum α)} {n : Int}
    (ha : σ array = .array cells) (hn : σ (lengthName array 1) = .int n) (h0 : 0 ≤ n)
    (hle : n ≤ cells.length) {elements : List Expr} (hlen : elements.length < 2 ^ 63)
    (hl : ∀ e ∈ elements, e.literal?.isSome = true) :
    I.eval σ (comparison array elements) =
      .bool (cells.take n.toNat = elements.map (I.eval σ)) := by
  have hseed : I.eval σ (.equal (.var (lengthName array 1)) (.ofInt (Int64.ofNat elements.length)))
      = .bool (n = elements.length) := by
    rw [I.eval_equal σ rfl, I.eval_var, hn, I.eval_ofInt, Int64.toInt_ofNat_of_lt hlen]
    simp
  rw [comparison, I.eval_foldl_cells σ ha hl 0 _ _ (by omega) hseed]
  by_cases hN : n = elements.length
  · subst hN
    rw [I.map_cell_range cells (by omega)]
    simp [eq_comm]
  · -- The store has `n` cells, so the lists differ in length.
    have hne : cells.take n.toNat ≠ elements.map (I.eval σ) := by
      intro h
      have := congrArg List.length h
      simp at this
      omega
    simp [hN, hne]

end Interpretation

/-! ## Expressions -/

namespace Expr

mutual

/-- The positions in every array value that may be compared are 64-bit integers, as they are for any
list in memory. -/
def indexable : Expr → Bool
  | .literal _ _ => true
  | .identifier _ _ => true
  | .arrayValue elements _ => elements.length < 2 ^ 63
  | .distribution _ args _ => listIndexable args
  | .operator _ operands _ => operandsIndexable operands

def listIndexable : List Expr → Bool
  | [] => true
  | e :: es => indexable e && listIndexable es

def operandsIndexable : List (String × Expr) → Bool
  | [] => true
  | (_, e) :: es => indexable e && operandsIndexable es

end

end Expr

/-- Every vector holds a backing store, and its companion a length within it. -/
def Scope.Backed {α : Type} (scope : Scope) (σ : Store α) : Prop :=
  ∀ name, scope.IsVector name → ∃ cells n, σ name = .array cells ∧
    σ (lengthName name 1) = .int n ∧ 0 ≤ n ∧ n ≤ cells.length

/-- Without array values there is no comparison of arrays. -/
theorem Store.compared?_eq_none {α : Type} [DecidableEq α] (σ : Store α)
    {operands : List (String × Expr)} (args : List (String × Datum α))
    (h : ∀ p ∈ operands, p.2.isArrayValue = false) : σ.compared? operands args = none := by
  have hno : true ∉ operands.map (·.2.isArrayValue) := by
    intro hm
    obtain ⟨p, hp, hv⟩ := List.mem_map.1 hm
    rw [h p hp] at hv
    cases hv
  unfold Store.compared?
  split
  · rename_i hv
    simp [hv] at hno
  · rename_i hv
    simp [hv] at hno
  · rfl

namespace Interpretation

variable {α : Type} [DecidableEq α] (I : Interpretation α) {scope : Scope} {σ : Store α}

/-- The equality of an array variable with an array value. -/
theorem eval_compares {array : String} {elements : List Expr} {operands : List (String × Expr)}
    (hc : Compares array elements operands) (c : Option String) {cells : List (Datum α)} {n : Int}
    (ha : σ array = .array cells) (hn : σ (lengthName array 1) = .int n) :
    I.eval σ (.operator .eq operands c) =
      .bool (cells.take n.toNat = elements.map (I.eval σ)) := by
  cases hc <;>
    simp [eval, evalOperands, evalList_eq, node, Store.compared?, Store.active?, ha, hn,
      Expr.identifier?, Expr.isArrayValue]

mutual

/-- Normalizing keeps the meaning; the induction follows the expression. -/
theorem eval_normalize (hσ : scope.Backed σ) :
    ∀ (e : Expr) {e' : Expr}, e.indexable = true → (e.normalize scope).outcome = .ok e' →
      I.eval σ e' = I.eval σ e
  | .literal v c, e', _, h => by
    simp only [Expr.normalize, Report.outcome_ok, Except.ok.injEq] at h
    rw [h]
  | .identifier name c, e', _, h => by
    simp only [Expr.normalize, Report.outcome_ok, Except.ok.injEq] at h
    rw [h]
  | .arrayValue es c, e', _, h => by
    simp only [Expr.normalize, Report.outcome_ok, Except.ok.injEq] at h
    rw [h]
  | .distribution name args c, e', hi, h => by
    simp only [Expr.normalize, Report.outcome_bind, Report.outcome_pure, Except.bind_eq_ok_iff,
      Except.ok.injEq] at h
    obtain ⟨args', hargs, rfl⟩ := h
    rw [eval, eval, evalList_normalizeList hσ args hi hargs]
  | .operator op operands c, e', hi, h => by
    rcases Expr.normalize_operator_eq_ok_iff.1 h with
      ⟨hno, operands', hops, rfl⟩ | ⟨-, rfl, e₀, he, rfl⟩
    · -- The node is kept. It has no array value before or after, so it is no comparison of arrays.
      rw [eval, eval, evalOperands_normalizeOperands hσ operands hi hops]
      rw [I.node_of_not_compared, I.node_of_not_compared]
      · rintro rfl
        exact σ.compared?_eq_none _ (Expr.not_isArrayValue_of_hasArrayOperand hno)
      · rintro rfl
        exact σ.compared?_eq_none _
          (Expr.isArrayValue_normalizeOperands hops (Expr.not_isArrayValue_of_hasArrayOperand hno))
    · -- The node compares an array of the scope, which is backed.
      obtain ⟨array, elements, hc, hv, -, hl, rfl⟩ := expandComparison_eq_ok_iff.1 he
      obtain ⟨cells, n, ha, hn, h0, hle⟩ := hσ array hv
      have hlen : elements.length < 2 ^ 63 := by
        cases hc <;> simpa [Expr.indexable, Expr.operandsIndexable] using hi
      rw [eval_withComment, I.eval_comparison σ ha hn h0 hle hlen hl, I.eval_compares hc c ha hn]

theorem evalList_normalizeList (hσ : scope.Backed σ) :
    ∀ (es : List Expr) {es' : List Expr}, Expr.listIndexable es = true →
      (Expr.normalizeList scope es).outcome = .ok es' → I.evalList σ es' = I.evalList σ es
  | [], es', _, h => by
    simp only [Expr.normalizeList, Report.outcome_ok, Except.ok.injEq] at h
    rw [h]
  | e :: es, es', hi, h => by
    simp only [Expr.listIndexable, Bool.and_eq_true] at hi
    simp only [Expr.normalizeList, Report.outcome_bind, Report.outcome_pure,
      Except.bind_eq_ok_iff, Except.ok.injEq] at h
    obtain ⟨x, hx, xs, hxs, rfl⟩ := h
    rw [evalList, evalList, eval_normalize hσ e hi.1 hx, evalList_normalizeList hσ es hi.2 hxs]

theorem evalOperands_normalizeOperands (hσ : scope.Backed σ) :
    ∀ (es : List (String × Expr)) {es' : List (String × Expr)},
      Expr.operandsIndexable es = true → (Expr.normalizeOperands scope es).outcome = .ok es' →
        I.evalOperands σ es' = I.evalOperands σ es
  | [], es', _, h => by
    simp only [Expr.normalizeOperands, Report.outcome_ok, Except.ok.injEq] at h
    rw [h]
  | (role, e) :: es, es', hi, h => by
    simp only [Expr.operandsIndexable, Bool.and_eq_true] at hi
    simp only [Expr.normalizeOperands, Report.outcome_bind, Report.outcome_pure,
      Except.bind_eq_ok_iff, Except.ok.injEq] at h
    obtain ⟨x, hx, xs, hxs, rfl⟩ := h
    rw [evalOperands, evalOperands, eval_normalize hσ e hi.1 hx,
      evalOperands_normalizeOperands hσ es hi.2 hxs]

end

end Interpretation

/-! ## Cells out of use -/

namespace Expr

/-- The operands are those of a comparison of an array variable with an array value. -/
def isComparison : List (String × Expr) → Bool
  | [(_, .identifier _ _), (_, .arrayValue _ _)] => true
  | [(_, .arrayValue _ _), (_, .identifier _ _)] => true
  | _ => false

mutual

/-- The expression reads the array in comparisons with array values only. -/
def onlyCompares (array : String) : Expr → Bool
  | .literal _ _ => true
  | .identifier name _ => name ≠ array
  | .arrayValue elements _ => listOnlyCompares array elements
  | .distribution _ args _ => listOnlyCompares array args
  | .operator op operands _ =>
    operandsOnlyCompare array (op == .eq && isComparison operands) operands

def listOnlyCompares (array : String) : List Expr → Bool
  | [] => true
  | e :: es => onlyCompares array e && listOnlyCompares array es

/-- In a comparison, the operand that is a name may be the array. -/
def operandsOnlyCompare (array : String) (compared : Bool) : List (String × Expr) → Bool
  | [] => true
  | (_, e) :: es =>
    (compared && e.identifier?.isSome || onlyCompares array e) &&
      operandsOnlyCompare array compared es

end

end Expr

/-- The store with other cells for one array. -/
abbrev Store.withCells {α : Type} (σ : Store α) (array : String) (cells : List (Datum α)) :
    Store α :=
  Function.update σ array (.array cells)

section Unused

variable {α : Type} {σ : Store α} {array : String} {cells cells' : List (Datum α)} {n : Int}

/-- What is in use stays the same for all arrays if it does for the changed one. -/
theorem active?_withCells (ha : σ array = .array cells) (hn : σ (lengthName array 1) = .int n)
    (ht : cells'.take n.toNat = cells.take n.toNat) (name : String) :
    (σ.withCells array cells').active? name = σ.active? name := by
  unfold Store.active?
  by_cases hname : name = array
  · subst hname
    simp [Store.withCells, ha, hn, ht, lengthName_ne]
  · by_cases hl : lengthName name 1 = array
    · simp [Store.withCells, hname, hl, ha]
    · simp [Store.withCells, hname, hl]

variable [DecidableEq α] (I : Interpretation α)

/-- A comparison looks at the part of the array that is in use, and at the elements. -/
theorem eval_compares_withCells (ha : σ array = .array cells)
    (hn : σ (lengthName array 1) = .int n) (ht : cells'.take n.toNat = cells.take n.toNat)
    {name : String} {elements : List Expr} {operands : List (String × Expr)}
    (hc : Compares name elements operands) (c : Option String)
    (hes : elements.map (I.eval (σ.withCells array cells')) = elements.map (I.eval σ)) :
    I.eval (σ.withCells array cells') (.operator .eq operands c) =
      I.eval σ (.operator .eq operands c) := by
  by_cases hname : name = array
  · subst hname
    have ha' : (σ.withCells name cells') name = .array cells' := Function.update_self ..
    have hn' : (σ.withCells name cells') (lengthName name 1) = .int n := by
      rw [← hn]
      exact Function.update_of_ne (lengthName_ne name 1) ..
    rw [I.eval_compares hc c ha' hn', I.eval_compares hc c ha hn, ht, hes]
  · have hv : (σ.withCells array cells') name = σ name := Function.update_of_ne hname ..
    cases hc <;>
      simp only [Interpretation.eval, Interpretation.evalOperands, Interpretation.evalList_eq,
        Interpretation.node, Store.compared?, active?_withCells ha hn ht, hes, hv]

theorem compares_of_isComparison {operands : List (String × Expr)}
    (h : Expr.isComparison operands = true) : ∃ name elements, Compares name elements operands := by
  unfold Expr.isComparison at h
  split at h
  · exact ⟨_, _, .variableFirst ..⟩
  · exact ⟨_, _, .valueFirst ..⟩
  · cases h

mutual

/-- An expression that only compares an array does not see the cells out of use. -/
theorem eval_withCells (ha : σ array = .array cells) (hn : σ (lengthName array 1) = .int n)
    (ht : cells'.take n.toNat = cells.take n.toNat) :
    ∀ e : Expr, e.onlyCompares array = true →
      I.eval (σ.withCells array cells') e = I.eval σ e
  | .literal v c, _ => rfl
  | .identifier name c, h => by
    simp only [Expr.onlyCompares, decide_eq_true_eq] at h
    exact Function.update_of_ne h ..
  | .arrayValue es c, h => by
    rw [Interpretation.eval, Interpretation.eval, I.evalList_eq, I.evalList_eq,
      List.map_congr_left (evalList_withCells ha hn ht es h)]
  | .distribution name args c, h => by
    rw [Interpretation.eval, Interpretation.eval, I.evalList_eq, I.evalList_eq,
      List.map_congr_left (evalList_withCells ha hn ht args h)]
  | .operator op operands c, h => by
    have hops := evalOperands_withCells ha hn ht _ operands h
    by_cases hcmp : op = .eq ∧ Expr.isComparison operands = true
    · obtain ⟨rfl, hc⟩ := hcmp
      obtain ⟨name, elements, hc⟩ := compares_of_isComparison hc
      refine eval_compares_withCells I ha hn ht hc c ?_
      cases hc with
      | variableFirst r s d d' =>
        have := (hops (s, .arrayValue elements d') (by simp)).resolve_left
          (by simp [Expr.identifier?])
        simpa [Interpretation.eval, I.evalList_eq] using this
      | valueFirst r s d d' =>
        have := (hops (r, .arrayValue elements d) (by simp)).resolve_left
          (by simp [Expr.identifier?])
        simpa [Interpretation.eval, I.evalList_eq] using this
    · have heq : ∀ p ∈ operands, I.eval (σ.withCells array cells') p.2 = I.eval σ p.2 := by
        intro p hp
        refine (hops p hp).resolve_left ?_
        rintro ⟨hb, -⟩
        exact hcmp (by simpa using hb)
      have hargs : I.evalOperands (σ.withCells array cells') operands =
          I.evalOperands σ operands := by
        rw [I.evalOperands_eq, I.evalOperands_eq]
        exact List.map_congr_left fun p hp => by rw [heq p hp]
      rw [Interpretation.eval, Interpretation.eval, hargs]
      unfold Interpretation.node Store.compared?
      simp only [active?_withCells ha hn ht]

theorem evalList_withCells (ha : σ array = .array cells) (hn : σ (lengthName array 1) = .int n)
    (ht : cells'.take n.toNat = cells.take n.toNat) :
    ∀ es : List Expr, Expr.listOnlyCompares array es = true →
      ∀ e ∈ es, I.eval (σ.withCells array cells') e = I.eval σ e
  | [], _ => by simp
  | e :: es, h => by
    simp only [Expr.listOnlyCompares, Bool.and_eq_true] at h
    intro x hx
    rcases List.mem_cons.1 hx with hx | hx
    · rw [hx]
      exact eval_withCells ha hn ht e h.1
    · exact evalList_withCells ha hn ht es h.2 x hx

theorem evalOperands_withCells (ha : σ array = .array cells)
    (hn : σ (lengthName array 1) = .int n) (ht : cells'.take n.toNat = cells.take n.toNat) :
    ∀ (compared : Bool) (es : List (String × Expr)),
      Expr.operandsOnlyCompare array compared es = true →
        ∀ p ∈ es, (compared = true ∧ p.2.identifier?.isSome = true) ∨
          I.eval (σ.withCells array cells') p.2 = I.eval σ p.2
  | _, [], _ => by simp
  | compared, (role, e) :: es, h => by
    simp only [Expr.operandsOnlyCompare, Bool.and_eq_true, Bool.or_eq_true] at h
    intro p hp
    rcases List.mem_cons.1 hp with rfl | hp
    · exact h.1.imp_right (eval_withCells ha hn ht e)
    · exact evalOperands_withCells ha hn ht compared es h.2 p hp

end

end Unused

theorem Scope.Backed.withCells {α : Type} {scope : Scope} {σ : Store α} (hσ : scope.Backed σ)
    {array : String} {cells cells' : List (Datum α)} {n : Int} (ha : σ array = .array cells)
    (hn : σ (lengthName array 1) = .int n) (hle : n ≤ cells'.length) :
    scope.Backed (σ.withCells array cells') := by
  intro name hv
  obtain ⟨cs, k, hcs, hk, h0, hk'⟩ := hσ name hv
  have hl : lengthName name 1 ≠ array := by
    rintro rfl
    rw [hk] at ha
    cases ha
  by_cases hname : name = array
  · subst hname
    rw [hn] at hk
    cases hk
    exact ⟨cells', n, Function.update_self .., by rw [← hn]; exact Function.update_of_ne hl ..,
      h0, hle⟩
  · exact ⟨cs, k, by rw [← hcs]; exact Function.update_of_ne hname ..,
      by rw [← hk]; exact Function.update_of_ne hl .., h0, hk'⟩

/-! ## Main theorem -/

/-- Normalizing keeps the meaning of an expression, wherever comparisons of arrays stand in it, and
whatever the operators around them mean. So the cells of an array that are not in use have no
influence on the normal form of an expression that only compares the array. -/
theorem normalize_preserves_meaning {α : Type} [DecidableEq α] (I : Interpretation α)
    (scope : Scope) (σ : Store α) (hσ : scope.Backed σ) (e e' : Expr) (hi : e.indexable = true)
    (h : (e.normalize scope).outcome = .ok e') :
    I.eval σ e' = I.eval σ e ∧
      ∀ array cells cells' n, σ array = .array cells → σ (lengthName array 1) = .int n →
        n ≤ cells'.length → cells'.take n.toNat = cells.take n.toNat →
        e.onlyCompares array = true → I.eval (σ.withCells array cells') e' = I.eval σ e' := by
  refine ⟨I.eval_normalize hσ e hi h, ?_⟩
  intro array cells cells' n ha hn hle ht hc
  calc I.eval (σ.withCells array cells') e'
      = I.eval (σ.withCells array cells') e := I.eval_normalize (hσ.withCells ha hn hle) e hi h
    _ = I.eval σ e := eval_withCells I ha hn ht e hc
    _ = I.eval σ e' := (I.eval_normalize hσ e hi h).symm

/-- One array with five cells and its companion. -/
def fiveCells : Scope where
  globals := .ofList [
    { name := "arr", type := .array (.basic .int), capacities := some [5] },
    { name := "arr_length_1", type := .boundedInt 0 5 }]

/-- Two of the five cells are in use. -/
def twoInUse : Store Unit := fun name =>
  if name = "arr" then .array [.int 1, .int 2, .int 9, .int 9, .int 9] else .int 2

theorem fiveCells_backed : fiveCells.Backed twoInUse := by
  rintro name ⟨v, capacity, hv, ha, -⟩
  obtain rfl : name = "arr" := by
    obtain ⟨hmem, rfl⟩ := Registry.find?_eq_some_iff.1 hv
    rcases List.mem_pair.1 hmem with rfl | rfl
    · rfl
    · cases ha
  exact ⟨_, _, rfl, rfl, by decide, by decide⟩

/-- `¬([1, 2] = arr) ∨ x`. -/
def differs (compared : Expr) : Expr := .disj (.neg compared) (.var "x")

theorem normalize_preserves_meaning_nested :
    listing.eval twoInUse (differs (comparison "arr" [.ofInt 1, .ofInt 2])) =
      listing.eval twoInUse
        (differs (.equal (.arrayValue [.ofInt 1, .ofInt 2] none) (.var "arr"))) ∧
    listing.eval (twoInUse.withCells "arr" [.int 1, .int 2])
        (differs (comparison "arr" [.ofInt 1, .ofInt 2])) =
      listing.eval twoInUse (differs (comparison "arr" [.ofInt 1, .ofInt 2])) := by
  obtain ⟨h, hu⟩ := normalize_preserves_meaning listing fiveCells twoInUse fiveCells_backed
    (differs (.equal (.arrayValue [.ofInt 1, .ofInt 2] none) (.var "arr")))
    (differs (comparison "arr" [.ofInt 1, .ofInt 2])) (by decide) rfl
  exact ⟨h, hu "arr" _ _ 2 rfl rfl (by decide) rfl (by decide)⟩

end AutomataNet
