import AutomataNet.Proofs.Meaning
/-!
# Which cells a comparison reads

The conjunction that replaces the equality of an array variable with an array value accesses one
cell for each element, whatever the capacity of the array is. So it stays inside the backing store
exactly if the elements fit (`comparison_inside_iff_fits`). Where they do not, the length alone
makes the conjunction false, but whoever evaluates all of it reads cells that do not exist.
-/

namespace AutomataNet

/-! ## Accesses -/

namespace Expr

mutual

/-- The operands of every access to a cell in an expression, inner ones first. -/
def accesses : Expr → List (List (String × Expr))
  | .literal _ _ => []
  | .identifier _ _ => []
  | .arrayValue elements _ => listAccesses elements
  | .distribution _ args _ => listAccesses args
  | .operator op operands _ =>
    operandsAccesses operands ++ if op = .arrayAccess then [operands] else []

def listAccesses : List Expr → List (List (String × Expr))
  | [] => []
  | e :: es => accesses e ++ listAccesses es

def operandsAccesses : List (String × Expr) → List (List (String × Expr))
  | [] => []
  | (_, e) :: es => accesses e ++ operandsAccesses es

end

/-- The operands of an access to a cell of an array variable. -/
def cellOf (array : String) (i : Int64) : List (String × Expr) :=
  [("exp", .var array), ("index", .ofInt i)]

@[simp] theorem accesses_withComment (c : Option String) (e : Expr) :
    (e.withComment c).accesses = e.accesses := by
  cases e <;> simp [withComment, accesses]

theorem accesses_equal (left right : Expr) :
    (equal left right).accesses = left.accesses ++ right.accesses := by
  simp [equal, binary, accesses, operandsAccesses]

theorem accesses_conj (left right : Expr) :
    (conj left right).accesses = left.accesses ++ right.accesses := by
  simp [conj, binary, accesses, operandsAccesses]

theorem accesses_cell (array : String) (i : Int64) :
    (access (.var array) (.ofInt i)).accesses = [cellOf array i] := by
  simp [access, accesses, operandsAccesses, var, ofInt, lit, cellOf]

theorem accesses_of_literal {e : Expr} (h : e.literal?.isSome = true) : e.accesses = [] := by
  cases e <;> simp_all [literal?, accesses]

/-- A conjunction nested to the left accesses what its members access. -/
theorem accesses_foldl_conj {β : Type} (member : β → Expr) (items : List β) (e : Expr) :
    (items.foldl (fun conjunction x => .conj conjunction (member x)) e).accesses =
      e.accesses ++ items.flatMap fun x => (member x).accesses := by
  induction items generalizing e with
  | nil => simp
  | cons x items ih => simp [ih, accesses_conj]

/-- A comparison accesses one cell for each element. -/
theorem accesses_comparison (array : String) {elements : List Expr}
    (hl : ∀ e ∈ elements, e.literal?.isSome = true) :
    (comparison array elements).accesses =
      (List.range elements.length).map fun i => cellOf array (Int64.ofNat i) := by
  let member : Expr × Nat → Expr := fun p =>
    .equal p.1 (.access (.var array) (.ofInt (Int64.ofNat p.2)))
  have hlength : (equal (.var (lengthName array 1)) (.ofInt (Int64.ofNat elements.length))).accesses
      = [] := by
    simp [accesses_equal, var, ofInt, lit, accesses]
  have hmember : ∀ p ∈ elements.zipIdx,
      (member p).accesses = [cellOf array (Int64.ofNat p.2)] := by
    intro p hp
    rw [accesses_equal, accesses_of_literal (hl p.1 (List.fst_mem_of_mem_zipIdx hp)),
      accesses_cell, List.nil_append]
  calc (comparison array elements).accesses
      = [] ++ elements.zipIdx.flatMap fun p => (member p).accesses := by
        rw [← hlength]
        exact accesses_foldl_conj member ..
    _ = elements.zipIdx.map fun p => cellOf array (Int64.ofNat p.2) := by
        rw [List.flatMap_congr hmember, List.nil_append, List.map_eq_flatMap]
    _ = (elements.zipIdx.map Prod.snd).map fun i => cellOf array (Int64.ofNat i) := by
        rw [List.map_map]
        rfl
    _ = (List.range elements.length).map fun i => cellOf array (Int64.ofNat i) := by
        rw [List.zipIdx_map_snd, List.range_eq_range']

end Expr

/-! ## Reading inside and outside -/

namespace Interpretation

variable {α : Type} (I : Interpretation α)

/-- The same meanings, but for what is read outside of an array. -/
def withOutside (d : Datum α) : Interpretation α := { I with outside := d }

theorem cell_withOutside (d : Datum α) {cells : List (Datum α)} {i : Int} (h0 : 0 ≤ i)
    (hi : i < cells.length) : (I.withOutside d).cell cells i = I.cell cells i := by
  have hlt : i.toNat < cells.length := by omega
  simp [cell, not_lt.2 h0, List.getD_eq_getElem?_getD, hlt]

variable [DecidableEq α] (σ : Store α)

/-- There is a cell to read for an access with these operands. -/
def Hits (operands : List (String × Expr)) : Prop :=
  ∃ cells i, (I.evalOperands σ operands).lookup "exp" = some (.array cells) ∧
    (I.evalOperands σ operands).lookup "index" = some (.int i) ∧ 0 ≤ i ∧ i < cells.length

theorem hits_cellOf_iff {array : String} {cells : List (Datum α)} (ha : σ array = .array cells)
    (i : Int64) : I.Hits σ (Expr.cellOf array i) ↔ 0 ≤ i.toInt ∧ i.toInt < cells.length := by
  simp [Hits, Expr.cellOf, evalOperands, List.lookup, ha]

theorem operate_withOutside (d : Datum α) {op : Op} (h : op ≠ .arrayAccess)
    (args : List (String × Datum α)) : (I.withOutside d).operate op args = I.operate op args := by
  cases op <;> first | rfl | exact absurd rfl h

variable {σ}

theorem node_withOutside (d : Datum α) (op : Op) (operands : List (String × Expr))
    (h : op = .arrayAccess → I.Hits σ operands) :
    (I.withOutside d).node σ op operands (I.evalOperands σ operands) =
      I.node σ op operands (I.evalOperands σ operands) := by
  by_cases hop : op = .arrayAccess
  · subst hop
    obtain ⟨cells, i, hexp, hindex, h0, hi⟩ := h rfl
    simp only [node, operate, hexp, hindex, I.cell_withOutside d h0 hi]
  · unfold node
    split
    · rfl
    · exact I.operate_withOutside d hop _

mutual

/-- Where every access hits a cell, nothing outside of an array has an influence. -/
theorem eval_withOutside (d : Datum α) :
    ∀ e : Expr, (∀ operands ∈ e.accesses, I.Hits σ operands) →
      (I.withOutside d).eval σ e = I.eval σ e
  | .literal v c, _ => by cases v <;> rfl
  | .identifier name c, _ => rfl
  | .arrayValue es c, h => by
    rw [eval, eval, evalList_withOutside d es h]
  | .distribution name args c, h => by
    rw [eval, eval, evalList_withOutside d args h]
    rfl
  | .operator op operands c, h => by
    simp only [Expr.accesses, List.forall_mem_append] at h
    rw [eval, eval, evalOperands_withOutside d operands h.1]
    refine I.node_withOutside d op operands fun hop => h.2 operands ?_
    simp [hop]

theorem evalList_withOutside (d : Datum α) :
    ∀ es : List Expr, (∀ operands ∈ Expr.listAccesses es, I.Hits σ operands) →
      (I.withOutside d).evalList σ es = I.evalList σ es
  | [], _ => rfl
  | e :: es, h => by
    simp only [Expr.listAccesses, List.forall_mem_append] at h
    rw [evalList, evalList, eval_withOutside d e h.1, evalList_withOutside d es h.2]

theorem evalOperands_withOutside (d : Datum α) :
    ∀ es : List (String × Expr), (∀ operands ∈ Expr.operandsAccesses es, I.Hits σ operands) →
      (I.withOutside d).evalOperands σ es = I.evalOperands σ es
  | [], _ => rfl
  | (role, e) :: es, h => by
    simp only [Expr.operandsAccesses, List.forall_mem_append] at h
    rw [evalOperands, evalOperands, eval_withOutside d e h.1, evalOperands_withOutside d es h.2]

end

end Interpretation

/-! ## Positions -/

/-- The first `n` positions are within the capacity as 64-bit integers. -/
theorem forall_position_inside_iff (n capacity : Nat) :
    (∀ i < n, 0 ≤ (Int64.ofNat i).toInt ∧ (Int64.ofNat i).toInt < capacity) ↔
      n ≤ capacity ∧ n ≤ 2 ^ 63 := by
  constructor
  · intro h
    have hn : n ≤ 2 ^ 63 := by
      -- The position after the last 64-bit integer is taken for a negative one.
      by_contra hlt
      have hneg : (Int64.ofNat (2 ^ 63)).toInt < 0 := by decide
      exact absurd (h (2 ^ 63) (by omega)).1 (by omega)
    refine ⟨?_, hn⟩
    by_contra hlt
    have hlast := (h capacity (by omega)).2
    rw [Int64.toInt_ofNat_of_lt (by omega)] at hlast
    omega
  · rintro ⟨hc, hn⟩ i hi
    rw [Int64.toInt_ofNat_of_lt (by omega)]
    omega

/-! ## Main theorem -/

theorem Compares.unique {array array' : String} {elements elements' : List Expr}
    {operands : List (String × Expr)} (h : Compares array elements operands)
    (h' : Compares array' elements' operands) : array = array' ∧ elements = elements' := by
  cases h <;> cases h' <;> exact ⟨rfl, rfl⟩

/-- An equality of an array variable with an array value that has a normal form is replaced. -/
theorem normalize_compares {scope : Scope} {array : String} {elements : List Expr}
    {operands : List (String × Expr)} (hc : Compares array elements operands) {c : Option String}
    {e : Expr} (h : ((Expr.operator .eq operands c).normalize scope).outcome = .ok e) :
    scope.IsVector array ∧ (∀ x ∈ elements, x.literal?.isSome = true) ∧
      e = (comparison array elements).withComment c := by
  rcases Expr.normalize_operator_eq_ok_iff.1 h with ⟨hno, -⟩ | ⟨-, -, e₀, he, rfl⟩
  · have hvalue := Expr.not_isArrayValue_of_hasArrayOperand hno
    cases hc <;> simp [Expr.isArrayValue] at hvalue
  · obtain ⟨array', elements', hc', hv, -, hl, rfl⟩ := expandComparison_eq_ok_iff.1 he
    obtain ⟨rfl, rfl⟩ := hc.unique hc'
    exact ⟨hv, hl, rfl⟩

/-- A replaced equality accesses the cells `0, 1, …` of the array, one for each element. The
positions are inside the backing store exactly if there are no more elements than the capacity, and
no more than there are positions; then nothing outside of the store has an influence. With more
elements the store is left, although the conjunction is false there. -/
theorem comparison_inside_iff_fits {α : Type} [DecidableEq α] (I : Interpretation α)
    (scope : Scope) (array : String) (elements : List Expr) (operands : List (String × Expr))
    (c : Option String) (e : Expr) (hc : Compares array elements operands)
    (h : ((Expr.operator .eq operands c).normalize scope).outcome = .ok e) :
    e.accesses = (List.range elements.length).map
        (fun i => Expr.cellOf array (Int64.ofNat i)) ∧
      ∃ v capacity, scope.find? array = some v ∧ v.capacities = some [capacity] ∧
        ((∀ x ∈ e.accesses, ∃ i : Int64, x = Expr.cellOf array i ∧
            0 ≤ i.toInt ∧ i.toInt < capacity) ↔
          elements.length ≤ capacity ∧ elements.length ≤ 2 ^ 63) ∧
        ∀ (σ : Store α) (cells : List (Datum α)), σ array = .array cells →
          cells.length = capacity →
          ((∀ x ∈ e.accesses, I.Hits σ x) ↔
            elements.length ≤ capacity ∧ elements.length ≤ 2 ^ 63) ∧
          (elements.length ≤ capacity → elements.length ≤ 2 ^ 63 →
            ∀ d, (I.withOutside d).eval σ e = I.eval σ e) ∧
          ∀ n, σ (lengthName array 1) = .int n → 0 ≤ n → n ≤ capacity →
            capacity < elements.length → elements.length < 2 ^ 63 → I.eval σ e = .bool false := by
  obtain ⟨⟨v, capacity, hv, -, hcap⟩, hl, rfl⟩ := normalize_compares hc h
  have haccesses : ((comparison array elements).withComment c).accesses =
      (List.range elements.length).map fun i => Expr.cellOf array (Int64.ofNat i) := by
    rw [Expr.accesses_withComment, Expr.accesses_comparison array hl]
  refine ⟨haccesses, v, capacity, hv, hcap, ?_, ?_⟩
  · rw [haccesses, ← forall_position_inside_iff]
    simp [Expr.cellOf, Expr.ofInt, Expr.lit]
  · rintro σ cells ha rfl
    have hhits : (∀ x ∈ ((comparison array elements).withComment c).accesses, I.Hits σ x) ↔
        elements.length ≤ cells.length ∧ elements.length ≤ 2 ^ 63 := by
      rw [haccesses, ← forall_position_inside_iff]
      simp [I.hits_cellOf_iff σ ha]
    refine ⟨hhits, ?_, ?_⟩
    · intro hfit hlen d
      exact I.eval_withOutside d _ (hhits.2 ⟨hfit, hlen⟩)
    · intro n hn h0 hle hlt hlen
      rw [I.eval_withComment, I.eval_comparison σ ha hn h0 hle hlen hl]
      have hne : cells.take n.toNat ≠ elements.map (I.eval σ) := by
        intro heq
        have := congrArg List.length heq
        simp at this
        omega
      simp [hne]

/-- An array with two cells, as it is declared. -/
def pair : Scope where
  globals := (Registry.declareArray "pair" (.basic .int) [2] {}).state

/-- `pair = [1, 2, …]`. -/
def pairIs (elements : List Expr) : Expr :=
  .equal (.var "pair") (.arrayValue elements none)

/-- Both cells are in use. -/
def bothInUse : Store Unit := fun name =>
  if name = "pair" then .array [.int 1, .int 2] else .int 2

theorem pair_capacity {v : Variable} {capacity : Nat} (hv : pair.find? "pair" = some v)
    (hc : v.capacities = some [capacity]) : capacity = 2 := by
  have hpair : (pair.find? "pair").bind (·.capacities) = some [2] := rfl
  rw [hv, Option.bind_some, hc] at hpair
  simpa using hpair

theorem comparison_inside_iff_fits_pair :
    ((pairIs [.ofInt 1, .ofInt 2]).normalize pair).outcome =
        .ok (comparison "pair" [.ofInt 1, .ofInt 2]) ∧
      (∀ x ∈ (comparison "pair" [.ofInt 1, .ofInt 2]).accesses, listing.Hits bothInUse x) ∧
      ((pairIs [.ofInt 1, .ofInt 2, .ofInt 3]).normalize pair).outcome =
        .ok (comparison "pair" [.ofInt 1, .ofInt 2, .ofInt 3]) ∧
      listing.eval bothInUse (comparison "pair" [.ofInt 1, .ofInt 2, .ofInt 3]) = .bool false := by
  obtain ⟨-, v, capacity, hv, hc, -, hfit⟩ := comparison_inside_iff_fits listing pair "pair"
    [.ofInt 1, .ofInt 2] _ none (comparison "pair" [.ofInt 1, .ofInt 2])
    (.variableFirst "left" "right" none none) rfl
  obtain ⟨-, w, capacity', hw, hc', -, hmore⟩ := comparison_inside_iff_fits listing pair "pair"
    [.ofInt 1, .ofInt 2, .ofInt 3] _ none (comparison "pair" [.ofInt 1, .ofInt 2, .ofInt 3])
    (.variableFirst "left" "right" none none) rfl
  obtain rfl := pair_capacity hv hc
  obtain rfl := pair_capacity hw hc'
  exact ⟨rfl, (hfit bothInUse _ rfl rfl).1.2 (by decide), rfl,
    (hmore bothInUse _ rfl rfl).2.2 2 rfl (by decide) (by decide) (by decide) (by decide)⟩

/-- The third element is compared with a cell that the array does not have. -/
theorem pair_read_outside :
    ((pairIs [.ofInt 1, .ofInt 2, .ofInt 3]).normalize pair).outcome =
        .ok (comparison "pair" [.ofInt 1, .ofInt 2, .ofInt 3]) ∧
      (pair.find? "pair").bind (·.capacities) = some [2] ∧
      Expr.cellOf "pair" 2 ∈ (comparison "pair" [.ofInt 1, .ofInt 2, .ofInt 3]).accesses ∧
      ¬listing.Hits bothInUse (Expr.cellOf "pair" 2) := by
  refine ⟨rfl, rfl, ?_, ?_⟩
  · rw [Expr.accesses_comparison "pair" (by decide)]
    exact List.mem_map.2 ⟨2, by decide, rfl⟩
  · rw [listing.hits_cellOf_iff bothInUse rfl]
    decide

end AutomataNet
