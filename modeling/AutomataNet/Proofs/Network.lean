import AutomataNet.Proofs.Composition
import AutomataNet.Proofs.Evaluation
/-!
# How a network runs

Every automaton is in a location and has a store of its own. A step is taken by one automaton along
a silent edge, or by all the participants of a synchronization at once. The guards are read and the
assigned values computed before anything is written, and an automaton writes to its own store only.
-/

namespace AutomataNet

/-! ## Writing -/

/-- Changes what stands at a position in nested arrays. Where there is no such position, nothing
changes. -/
def Datum.modifyAt {α : Type} (f : Datum α → Datum α) : List Int → Datum α → Datum α
  | [], d => f d
  | i :: path, .array cells =>
    if i < 0 then .array cells else .array (cells.modify i.toNat (modifyAt f path))
  | _ :: _, d => d

theorem Datum.modifyAt_append {α : Type} (f : Datum α → Datum α) (p q : List Int) (d : Datum α) :
    d.modifyAt f (p ++ q) = d.modifyAt (Datum.modifyAt f q) p := by
  induction p generalizing d with
  | nil => rfl
  | cons i p ih =>
    cases d with
    | array cells =>
      have hf : Datum.modifyAt f (p ++ q) = Datum.modifyAt (Datum.modifyAt f q) p := funext ih
      simp only [List.cons_append, modifyAt, hf]
    | bool b => rfl
    | int n => rfl
    | other a => rfl

namespace Interpretation

variable {α : Type} (I : Interpretation α)

/-- Changing a cell by a function that keeps what is read there changes nothing. -/
theorem modifyAt_cell (cells : List (Datum α)) (i : Int) {f : Datum α → Datum α}
    (hf : f (I.cell cells i) = I.cell cells i) :
    (Datum.array cells).modifyAt f [i] = .array cells := by
  unfold Datum.modifyAt
  split
  · rfl
  · rename_i hi
    congr 1
    apply List.ext_getElem?
    intro k
    rw [List.getElem?_modify]
    by_cases hk : i.toNat = k
    · subst hk
      cases hc : cells[i.toNat]? with
      | none => simp
      | some d =>
        have hd : I.cell cells i = d := by simp [cell, hi, List.getD_eq_getElem?_getD, hc]
        rw [hd] at hf
        simpa [Datum.modifyAt] using hf
    · simp [hk]

variable [DecidableEq α]

mutual

/-- The variable an expression stands for as a target, and the positions in it. -/
def place? (σ : Store α) : Expr → Option (String × List Int)
  | .identifier name _ => some (name, [])
  | .operator .arrayAccess operands _ =>
    match arrayPlace? σ operands, (I.evalOperands σ operands).lookup "index" with
    | some (name, path), some (.int i) => some (name, path ++ [i])
    | _, _ => none
  | _ => none

/-- The place of the array whose cell is accessed. -/
def arrayPlace? (σ : Store α) : List (String × Expr) → Option (String × List Int)
  | [] => none
  | (role, e) :: es => if "exp" == role then place? σ e else arrayPlace? σ es

end

/-- Executes an assignment on `σ`; target and value are those in the store `old`. -/
def write (old σ : Store α) (a : Assignment) : Store α :=
  match I.place? old a.target with
  | some (name, path) =>
    Function.update σ name ((σ name).modifyAt (fun _ => I.eval old a.value) path)
  | none => σ

/-- Executes assignments together. -/
def assign (σ : Store α) (as : List Assignment) : Store α := as.foldl (I.write σ) σ

mutual

/-- Changing the place of an expression by a function that keeps what the expression denotes
changes nothing. -/
theorem modifyAt_place {σ : Store α} : ∀ {e : Expr} {name : String} {path : List Int},
    I.place? σ e = some (name, path) → ∀ f : Datum α → Datum α, f (I.eval σ e) = I.eval σ e →
      (σ name).modifyAt f path = σ name
  | .identifier x c, name, path, h, f, hf => by
    simp only [place?, Option.some.injEq, Prod.mk.injEq] at h
    obtain ⟨rfl, rfl⟩ := h
    exact hf
  | .operator op operands c, name, path, h, f, hf => by
    cases op <;> simp only [place?, reduceCtorEq] at h
    split at h
    · rename_i x p i hp hi
      simp only [Option.some.injEq, Prod.mk.injEq] at h
      obtain ⟨rfl, rfl⟩ := h
      -- the path leads to the array first, and then to the cell
      obtain ⟨d, hd, hfix⟩ := modifyAt_arrayPlace hp
      rw [Datum.modifyAt_append]
      apply hfix
      cases d with
      | array cells =>
        apply I.modifyAt_cell
        have he : I.eval σ (.operator .arrayAccess operands c) = I.cell cells i := by
          simp [eval, node, operate, hd, hi]
        rwa [he] at hf
      | bool b => rfl
      | int n => rfl
      | other a => rfl
    · cases h
  | .literal v c, name, path, h, f, hf => by simp [place?] at h
  | .arrayValue es c, name, path, h, f, hf => by simp [place?] at h
  | .distribution n es c, name, path, h, f, hf => by simp [place?] at h

theorem modifyAt_arrayPlace {σ : Store α} : ∀ {es : List (String × Expr)} {name : String}
    {path : List Int}, I.arrayPlace? σ es = some (name, path) →
      ∃ d, (I.evalOperands σ es).lookup "exp" = some d ∧
        ∀ f : Datum α → Datum α, f d = d → (σ name).modifyAt f path = σ name
  | [], name, path, h => by simp [arrayPlace?] at h
  | (role, e) :: es, name, path, h => by
    rw [arrayPlace?] at h
    by_cases hr : ("exp" == role) = true
    · rw [if_pos hr] at h
      exact ⟨I.eval σ e, by simp [evalOperands, List.lookup, hr], modifyAt_place h⟩
    · rw [if_neg hr] at h
      obtain ⟨d, hd, hfix⟩ := modifyAt_arrayPlace h
      exact ⟨d, by simpa [evalOperands, List.lookup, hr] using hd, hfix⟩

end

/-- Assigning a variable or a cell to itself changes nothing. -/
theorem write_identity {σ : Store α} {a : Assignment} (h : a.isIdentity = true) :
    I.write σ σ a = σ := by
  have hv : I.eval σ a.value = I.eval σ a.target := (I.eval_same σ h).symm
  unfold write
  split
  · rename_i name path hp
    rw [hv, I.modifyAt_place hp (fun _ => I.eval σ a.target) rfl, Function.update_eq_self]
  · rfl

theorem assign_identity {σ : Store α} {as : List Assignment} (h : as.all (·.isIdentity) = true) :
    I.assign σ as = σ := by
  unfold assign
  induction as with
  | nil => rfl
  | cons a as ih =>
    simp only [List.all_cons, Bool.and_eq_true] at h
    rw [List.foldl_cons, I.write_identity h.1]
    exact ih h.2

end Interpretation

/-! ## Moving -/

/-- Where an automaton is, and what its variables hold. -/
structure Local (α : Type) where
  location : String
  store : Store α

/-- The automata, by name. -/
abbrev NetState (α : Type) := String → Local α

section Moves

variable {α : Type} [DecidableEq α] (I : Interpretation α)

/-- The guard is missing or true. -/
def Edge.Enabled (e : Edge) (σ : Store α) : Prop := ∀ g ∈ e.guardExp?, I.eval σ g = .bool true

def Destination.enter (d : Destination) (l : Local α) : Local α :=
  ⟨d.location, I.assign l.store d.assignments⟩

/-- The automaton may take an edge with the given label; without a label it is a silent one. -/
def Automaton.Moves (a : Automaton) (action : Option String) (l l' : Local α) : Prop :=
  ∃ e ∈ a.edges, e.action = action ∧ e.location = l.location ∧ e.Enabled I l.store ∧
    ∃ d ∈ e.destinations, l' = d.enter I l

end Moves

namespace Model

variable {α : Type} [DecidableEq α] (I : Interpretation α) (m : Model)

/-- Every automaton is in a location of its own. -/
def Located (s : NetState α) : Prop :=
  ∀ a ∈ m.automata, a.hasLocation (s a.name).location = true

/-- The participants of a synchronization move, and all the others rest. -/
def Follows (v : Sync) (s t : NetState α) : Prop :=
  ∀ name, match m.automaton? name, m.system.entry? v name with
    | some a, some action => a.Moves I (some action) (s name) (t name)
    | _, _ => t name = s name

/-- A step of the network, with what is seen of it from outside. -/
inductive Step : NetState α → Option String → NetState α → Prop
  | silent {s : NetState α} {name : String} {a : Automaton} {l : Local α} :
      m.automaton? name = some a → a.Moves I none (s name) l →
        Step s none (Function.update s name l)
  | sync {s t : NetState α} {v : Sync} :
      v ∈ m.system.syncs → m.Follows I v s t → Step s v.result t

end Model

end AutomataNet
