import AutomataNet.Variable.Registry
import Mathlib
/-!
# What expressions mean

An expression denotes a `Datum` in a store. Equality, conjunction and the access to a cell have
their usual meaning; an `Interpretation` says what all other operators, the distributions and the
literals that are neither booleans nor integers mean, and it may say anything.

An array variable holds its whole backing store. Only the comparison of an array variable with an
array value looks at the companion: it compares the part of the store that is in use.
-/

namespace AutomataNet

/-! ## Data -/

/-- What an expression may denote; `α` is for everything else. -/
inductive Datum (α : Type) where
  | bool (b : Bool)
  | int (n : Int)
  | array (cells : List (Datum α))
  | other (a : α)
deriving Inhabited

namespace Datum

variable {α : Type} [DecidableEq α]

mutual

def decEq : (x y : Datum α) → Decidable (x = y)
  | .bool a, .bool b => decidable_of_iff (a = b) (by simp)
  | .int m, .int n => decidable_of_iff (m = n) (by simp)
  | .array xs, .array ys => @decidable_of_iff _ (xs = ys) (by simp) (decEqList xs ys)
  | .other a, .other b => decidable_of_iff (a = b) (by simp)
  | .bool _, .int _ | .bool _, .array _ | .bool _, .other _
  | .int _, .bool _ | .int _, .array _ | .int _, .other _
  | .array _, .bool _ | .array _, .int _ | .array _, .other _
  | .other _, .bool _ | .other _, .int _ | .other _, .array _ => isFalse nofun

def decEqList : (xs ys : List (Datum α)) → Decidable (xs = ys)
  | [], [] => isTrue rfl
  | [], _ :: _ | _ :: _, [] => isFalse nofun
  | x :: xs, y :: ys =>
    match decEq x y, decEqList xs ys with
    | isTrue h, isTrue hs => isTrue (by rw [h, hs])
    | isFalse h, _ => isFalse fun e => h (List.cons.inj e).1
    | _, isFalse hs => isFalse fun e => hs (List.cons.inj e).2

end

instance : DecidableEq (Datum α) := decEq

end Datum

/-- A value for every name. -/
abbrev Store (α : Type) := String → Datum α

/-- The part of an array that is in use. -/
def Store.active? {α : Type} (σ : Store α) (array : String) : Option (List (Datum α)) :=
  match σ array, σ (lengthName array 1) with
  | .array cells, .int n => some (cells.take n.toNat)
  | _, _ => none

/-! ## Meanings -/

/-- The meaning of what is not fixed. -/
structure Interpretation (α : Type) where
  real : Float → Datum α
  /-- Literals that count as equal denote the same. -/
  real_same : ∀ x y, sameReal x y = true → real x = real y
  constant : Constant → Datum α
  /-- An operator, on what its operands denote under their roles. -/
  apply : Op → List (String × Datum α) → Datum α
  /-- A distribution, on what its arguments denote. -/
  sample : String → List (Datum α) → Datum α
  /-- What is read outside of an array. -/
  outside : Datum α

namespace Interpretation

variable {α : Type} (I : Interpretation α)

def literal : Value → Datum α
  | .bool b => .bool b
  | .int n => .int n.toInt
  | .real x => I.real x
  | .constant c => I.constant c

def cell (cells : List (Datum α)) (i : Int) : Datum α :=
  if i < 0 then I.outside else cells.getD i.toNat I.outside

variable [DecidableEq α]

/-- An operator on data. Where the three fixed ones are given operands that they are not made for,
their meaning is left open, too. -/
def operate (op : Op) (args : List (String × Datum α)) : Datum α :=
  match op with
  | .eq =>
    match args.lookup "left", args.lookup "right" with
    | some x, some y => .bool (x = y)
    | _, _ => I.apply .eq args
  | .and =>
    match args.lookup "left", args.lookup "right" with
    | some (.bool x), some (.bool y) => .bool (x && y)
    | _, _ => I.apply .and args
  | .arrayAccess =>
    match args.lookup "exp", args.lookup "index" with
    | some (.array cells), some (.int i) => I.cell cells i
    | _, _ => I.apply .arrayAccess args
  | op => I.apply op args

end Interpretation

/-- Whether an array variable equals an array value, given in either order and under any roles,
once the operands are evaluated; `none` if the operands are anything else. -/
def Store.compared? {α : Type} [DecidableEq α] (σ : Store α) (operands : List (String × Expr))
    (args : List (String × Datum α)) : Option Bool :=
  match operands.map (·.2.identifier?), operands.map (·.2.isArrayValue), args with
  | [some array, _], [_, true], [_, (_, .array values)] => (σ.active? array).map (· = values)
  | [_, some array], [true, _], [(_, .array values), _] => (σ.active? array).map (· = values)
  | _, _, _ => none

namespace Interpretation

variable {α : Type} [DecidableEq α] (I : Interpretation α)

/-- An operator node, with what its operands denote. -/
def node (σ : Store α) (op : Op) (operands : List (String × Expr))
    (args : List (String × Datum α)) : Datum α :=
  match op, σ.compared? operands args with
  | .eq, some b => .bool b
  | op, _ => I.operate op args

mutual

/-- What an expression denotes in a store. -/
def eval (σ : Store α) : Expr → Datum α
  | .literal v _ => I.literal v
  | .identifier name _ => σ name
  | .arrayValue elements _ => .array (evalList σ elements)
  | .distribution name args _ => I.sample name (evalList σ args)
  | .operator op operands _ => I.node σ op operands (evalOperands σ operands)

def evalList (σ : Store α) : List Expr → List (Datum α)
  | [] => []
  | e :: es => eval σ e :: evalList σ es

def evalOperands (σ : Store α) : List (String × Expr) → List (String × Datum α)
  | [] => []
  | (role, e) :: es => (role, eval σ e) :: evalOperands σ es

end

theorem node_of_not_compared {σ : Store α} {op : Op} {operands : List (String × Expr)}
    {args : List (String × Datum α)} (h : op = .eq → σ.compared? operands args = none) :
    I.node σ op operands args = I.operate op args := by
  unfold node
  split
  · rename_i hb
    rw [h rfl] at hb
    cases hb
  · rfl

theorem evalList_eq (σ : Store α) (es : List Expr) : I.evalList σ es = es.map (I.eval σ) := by
  induction es with
  | nil => rfl
  | cons e es ih => simp [evalList, ih]

theorem evalOperands_eq (σ : Store α) (es : List (String × Expr)) :
    I.evalOperands σ es = es.map fun p => (p.1, I.eval σ p.2) := by
  induction es with
  | nil => rfl
  | cons e es ih => simp [evalOperands, ih]

/-- Comments mean nothing. -/
@[simp] theorem eval_withComment (σ : Store α) (c : Option String) (e : Expr) :
    I.eval σ (e.withComment c) = I.eval σ e := by
  cases e <;> rfl

/-! ## Nodes built by the library -/

variable (σ : Store α)

@[simp] theorem eval_var (name : String) : I.eval σ (.var name) = σ name := rfl

@[simp] theorem eval_ofInt (n : Int64) : I.eval σ (.ofInt n) = .int n.toInt := rfl

/-- Equality is standard unless an array variable meets an array value. -/
theorem eval_equal {left right : Expr}
    (h : σ.compared? [("left", left), ("right", right)]
      [("left", I.eval σ left), ("right", I.eval σ right)] = none) :
    I.eval σ (.equal left right) = .bool (I.eval σ left = I.eval σ right) := by
  simp [Expr.equal, Expr.binary, eval, evalOperands, node, h, operate, List.lookup]

theorem eval_conj {left right : Expr} {x y : Bool} (hl : I.eval σ left = .bool x)
    (hr : I.eval σ right = .bool y) : I.eval σ (.conj left right) = .bool (x && y) := by
  simp [Expr.conj, Expr.binary, eval, evalOperands, node, operate, List.lookup, hl, hr]

theorem eval_access {array index : Expr} {cells : List (Datum α)} {i : Int}
    (ha : I.eval σ array = .array cells) (hi : I.eval σ index = .int i) :
    I.eval σ (.access array index) = I.cell cells i := by
  simp [Expr.access, eval, evalOperands, node, operate, List.lookup, ha, hi]

end Interpretation

/-! ## Equal expressions -/

namespace Expr

theorem same_root {e e' : Expr} (h : e.same e' = true) :
    e.identifier? = e'.identifier? ∧ e.isArrayValue = e'.isArrayValue := by
  cases e <;> cases e' <;> simp_all [same, identifier?, isArrayValue]

theorem sameOperands_roots {es es' : List (String × Expr)} (h : sameOperands es es' = true) :
    es.map (·.2.identifier?) = es'.map (·.2.identifier?) ∧
      es.map (·.2.isArrayValue) = es'.map (·.2.isArrayValue) := by
  induction es generalizing es' with
  | nil => cases es' <;> simp_all [sameOperands]
  | cons p es ih =>
    cases es' with
    | nil => simp [sameOperands] at h
    | cons q es' =>
      simp only [sameOperands, Bool.and_eq_true] at h
      obtain ⟨hi, ha⟩ := same_root h.1.2
      obtain ⟨his, has⟩ := ih h.2
      exact ⟨by simp [hi, his], by simp [ha, has]⟩

end Expr

namespace Interpretation

variable {α : Type} (I : Interpretation α)

theorem literal_same {v w : Value} (h : v.same w = true) : I.literal v = I.literal w := by
  cases v <;> cases w <;> simp_all [Value.same, literal]
  exact I.real_same _ _ h

variable [DecidableEq α] (σ : Store α)

mutual

/-- Expressions that differ in comments only, or in the spelling of a real, mean the same. -/
theorem eval_same : ∀ {e e' : Expr}, e.same e' = true → I.eval σ e = I.eval σ e'
  | .literal v _, .literal w _, h => I.literal_same h
  | .identifier n _, .identifier m _, h => by
    simp only [Expr.same, beq_iff_eq] at h
    simp [eval, h]
  | .operator op xs _, .operator op' ys _, h => by
    simp only [Expr.same, Bool.and_eq_true, beq_iff_eq] at h
    obtain ⟨rfl, h⟩ := h
    obtain ⟨hi, ha⟩ := Expr.sameOperands_roots h
    simp only [eval, node, Store.compared?, evalOperands_same h, hi, ha]
  | .arrayValue xs _, .arrayValue ys _, h => by
    rw [eval, eval, evalList_same h]
  | .distribution n xs _, .distribution m ys _, h => by
    simp only [Expr.same, Bool.and_eq_true, beq_iff_eq] at h
    rw [eval, eval, h.1, evalList_same h.2]

theorem evalList_same : ∀ {es es' : List Expr}, Expr.sameList es es' = true →
    I.evalList σ es = I.evalList σ es'
  | [], [], _ => rfl
  | x :: xs, y :: ys, h => by
    simp only [Expr.sameList, Bool.and_eq_true] at h
    rw [evalList, evalList, eval_same h.1, evalList_same h.2]

theorem evalOperands_same : ∀ {es es' : List (String × Expr)}, Expr.sameOperands es es' = true →
    I.evalOperands σ es = I.evalOperands σ es'
  | [], [], _ => rfl
  | (r, x) :: xs, (s, y) :: ys, h => by
    simp only [Expr.sameOperands, Bool.and_eq_true, beq_iff_eq] at h
    rw [evalOperands, evalOperands, h.1.1, eval_same h.1.2, evalOperands_same h.2]

end

end Interpretation

/-- Operators and distributions only list what they are given. -/
def listing : Interpretation Unit where
  real _ := .other ()
  real_same _ _ _ := rfl
  constant _ := .other ()
  apply _ args := .array (args.map (·.2))
  sample _ args := .array args
  outside := .other ()

end AutomataNet
