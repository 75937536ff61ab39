import AutomataNet.Proofs.Declarations
/-!
# Lengths of initial values

The length of an initial value along each dimension is read off level by level: all expressions of
one level are looked at, and then the elements of all array values among them. The outcome is that
of a recursion into one element after the other (`nestedLengths`), and along each dimension it is
the length of the longest array value on that level (`initialLengths_eq_nestedLengths`).

What makes the two ways agree is that levels can be cut: the lengths of two groups of expressions
are the larger ones of the lengths of each group (`levelLengths_append`). So a level may be taken
apart into single expressions, and each of them is what the recursion goes into.
-/

namespace AutomataNet

/-! ## Levels -/

/-- The expression stands on a level of some others: on level 0 are these, and on the next level are
the elements of array values. -/
inductive OnLevel (roots : List Expr) : Nat → Expr → Prop
  | root {e : Expr} : e ∈ roots → OnLevel roots 0 e
  | element {level : Nat} {elements : List Expr} {c : Option String} {e : Expr} :
      OnLevel roots level (.arrayValue elements c) → e ∈ elements → OnLevel roots (level + 1) e

/-- The longest array value on a level has this length, which is 0 if there is none. -/
structure Longest (roots : List Expr) (level length : Nat) : Prop where
  bound : ∀ elements c, OnLevel roots level (.arrayValue elements c) → elements.length ≤ length
  attained : length = 0 ∨
    ∃ elements c, OnLevel roots level (.arrayValue elements c) ∧ elements.length = length

/-- The next level is the same level of the elements. -/
theorem onLevel_succ_iff {roots : List Expr} {level : Nat} {e : Expr} :
    OnLevel roots (level + 1) e ↔ OnLevel (roots.flatMap Expr.elements) level e := by
  induction level generalizing e with
  | zero =>
    constructor
    · rintro (_ | ⟨hroot, he⟩)
      cases hroot with
      | root hroot => exact .root (List.mem_flatMap.2 ⟨_, hroot, he⟩)
    · rintro ⟨he⟩
      obtain ⟨x, hx, he⟩ := List.mem_flatMap.1 he
      cases x with
      | arrayValue elements c => exact .element (.root hx) he
      | literal | identifier | operator | distribution => cases he
  | succ level ih =>
    constructor
    · rintro (_ | ⟨harray, he⟩)
      exact .element (ih.1 harray) he
    · rintro (_ | ⟨harray, he⟩)
      exact .element (ih.2 harray) he

theorem Longest.unique {roots : List Expr} {level m n : Nat} (hm : Longest roots level m)
    (hn : Longest roots level n) : m = n := by
  -- each is attained below the other
  have hle {m n : Nat} (hm : Longest roots level m) (hn : Longest roots level n) : m ≤ n := by
    rcases hm.attained with rfl | ⟨elements, c, harray, rfl⟩
    · exact Nat.zero_le n
    · exact hn.bound elements c harray
  exact Nat.le_antisymm (hle hm hn) (hle hn hm)

theorem longest_zero (roots : List Expr) :
    Longest roots 0 (roots.foldl (fun longest e => max longest e.elements.length) 0) := by
  induction roots using List.reverseRecOn with
  | nil =>
    refine ⟨?_, .inl rfl⟩
    rintro elements c ⟨harray⟩
    cases harray
  | append_singleton roots e ih =>
    rw [List.foldl_append, List.foldl_cons, List.foldl_nil]
    generalize roots.foldl _ 0 = longest at ih ⊢
    constructor
    · rintro elements c ⟨harray⟩
      rcases List.mem_append.1 harray with harray | harray
      · exact (ih.bound elements c (.root harray)).trans (le_max_left ..)
      · rw [← List.mem_singleton.1 harray]
        exact le_max_right ..
    · rcases Nat.le_total e.elements.length longest with hle | hle
      · rw [max_eq_left hle]
        rcases ih.attained with hzero | ⟨elements, c, ⟨harray⟩, hlength⟩
        · exact .inl hzero
        · exact .inr ⟨elements, c, .root (List.mem_append_left _ harray), hlength⟩
      · rw [max_eq_right hle]
        cases e with
        | arrayValue elements c => exact .inr ⟨elements, c, .root (by simp), rfl⟩
        | literal | identifier | operator | distribution => exact .inl rfl

/-- The length along a dimension is that of the longest array value on its level. -/
theorem longest_of_levelLengths {n level length : Nat} {roots : List Expr}
    (h : (levelLengths n roots)[level]? = some length) : Longest roots level length := by
  induction n generalizing level roots with
  | zero => cases h
  | succ n ih =>
    rw [levelLengths] at h
    cases level with
    | zero =>
      obtain rfl := Option.some.inj h
      exact longest_zero roots
    | succ level =>
      obtain ⟨hbound, hattained⟩ := ih h
      constructor
      · simpa only [onLevel_succ_iff] using hbound
      · simpa only [onLevel_succ_iff] using hattained

/-- Where there is an array value at all, the longest one is among them. -/
theorem Longest.exists_eq {roots : List Expr} {level length : Nat} (h : Longest roots level length)
    (hany : ∃ elements c, OnLevel roots level (.arrayValue elements c)) :
    ∃ elements c, OnLevel roots level (.arrayValue elements c) ∧ elements.length = length := by
  rcases h.attained with rfl | hattained
  · obtain ⟨elements, c, harray⟩ := hany
    exact ⟨elements, c, harray, Nat.le_zero.1 (h.bound elements c harray)⟩
  · exact hattained

/-! ## Element by element -/

/-- The largest number at each of the first `n` places. -/
def pointwiseMax (n : Nat) (rows : List (List Nat)) : List Nat :=
  rows.foldr (List.zipWith max) (List.replicate n 0)

/-- The length of a value along each dimension. Along the first one an array value has the number of
its elements, and along the others the largest of the lengths that its elements have there. All else
has length 0. -/
def nestedLengths : Nat → Option Expr → List Nat
  | 0, _ => []
  | n + 1, some (.arrayValue elements _) =>
    elements.length :: pointwiseMax n (elements.map fun e => nestedLengths n (some e))
  | n + 1, _ => List.replicate (n + 1) 0

theorem nestedLengths_none (n : Nat) : nestedLengths n none = List.replicate n 0 := by
  cases n <;> rfl

theorem foldl_longest_append (xs ys : List Expr) :
    (xs ++ ys).foldl (fun longest e => max longest e.elements.length) 0 =
      max (xs.foldl (fun longest e => max longest e.elements.length) 0)
        (ys.foldl (fun longest e => max longest e.elements.length) 0) := by
  induction ys using List.reverseRecOn with
  | nil => simp
  | append_singleton ys y ih =>
    rw [← List.append_assoc, List.foldl_append, ih, List.foldl_append]
    exact max_assoc ..

theorem levelLengths_nil (n : Nat) : levelLengths n [] = List.replicate n 0 := by
  induction n with
  | zero => rfl
  | succ n ih =>
    rw [levelLengths, List.flatMap_nil, ih]
    rfl

/-- Levels can be cut. -/
theorem levelLengths_append (n : Nat) (xs ys : List Expr) :
    levelLengths n (xs ++ ys) = List.zipWith max (levelLengths n xs) (levelLengths n ys) := by
  induction n generalizing xs ys with
  | zero => rfl
  | succ n ih =>
    rw [levelLengths, levelLengths, levelLengths, List.zipWith_cons_cons, foldl_longest_append,
      List.flatMap_append, ih]

theorem levelLengths_eq_pointwiseMax (n : Nat) (level : List Expr) :
    levelLengths n level = pointwiseMax n (level.map fun e => levelLengths n [e]) := by
  induction level with
  | nil => exact levelLengths_nil n
  | cons e level ih =>
    rw [List.map_cons, pointwiseMax, List.foldr_cons, ← pointwiseMax, ← ih]
    exact levelLengths_append n [e] level

theorem levelLengths_singleton (n : Nat) (e : Expr) :
    levelLengths n [e] = nestedLengths n (some e) := by
  induction n generalizing e with
  | zero => rfl
  | succ n ih =>
    -- one level further are the elements, each of them on its own
    have hstep : levelLengths (n + 1) [e] = e.elements.length ::
        pointwiseMax n (e.elements.map fun x => nestedLengths n (some x)) := by
      rw [levelLengths, List.flatMap_singleton, levelLengths_eq_pointwiseMax]
      simp only [ih, List.foldl_cons, List.foldl_nil, Nat.zero_max]
    cases e with
    | arrayValue elements c => exact hstep
    | literal | identifier | operator | distribution =>
      rw [hstep]
      rfl

/-- Level by level there are as many lengths as dimensions, and they are those found element by
element. Each bounds the array values on its level, and is attained if there are any. -/
theorem initialLengths_eq_nestedLengths (initial : Option Expr) (n : Nat) :
    (initialLengths initial n).length = n ∧
    initialLengths initial n = nestedLengths n initial ∧
    ∀ d length, (initialLengths initial n)[d]? = some length →
      (∀ elements c, OnLevel initial.toList d (.arrayValue elements c) →
        elements.length ≤ length) ∧
      ((∃ elements c, OnLevel initial.toList d (.arrayValue elements c)) →
        ∃ elements c, OnLevel initial.toList d (.arrayValue elements c) ∧
          elements.length = length) := by
  refine ⟨Registry.length_levelLengths n initial.toList, ?_, fun d length hd => ?_⟩
  · cases initial with
    | none => rw [nestedLengths_none, initialLengths, Option.toList_none, levelLengths_nil]
    | some e => exact levelLengths_singleton n e
  · have hlongest := longest_of_levelLengths hd
    exact ⟨hlongest.bound, hlongest.exists_eq⟩

/-- Shelves with books, some of them in boxes. One shelf is empty, and one is not known. -/
def shelves : Expr :=
  .arrayValue
    [.arrayValue [.ofInt 1] none,
     .var "other",
     .arrayValue [] none,
     .arrayValue [.ofInt 2, .arrayValue [.ofInt 3, .ofInt 4, .ofInt 5] none] none] none

/-- The longest box is found although most shelves hold none. -/
theorem initialLengths_eq_nestedLengths_shelves :
    initialLengths (some shelves) 4 = [4, 2, 3, 0] ∧
    nestedLengths 4 (some shelves) = [4, 2, 3, 0] ∧
    ∃ elements c, OnLevel [shelves] 2 (.arrayValue elements c) ∧ elements.length = 3 := by
  have hlengths : initialLengths (some shelves) 4 = [4, 2, 3, 0] := rfl
  have hshelf : OnLevel [shelves] 1
      (.arrayValue [.ofInt 2, .arrayValue [.ofInt 3, .ofInt 4, .ofInt 5] none] none) :=
    .element (.root List.mem_cons_self) (by simp)
  have hbox : OnLevel [shelves] 2 (.arrayValue [.ofInt 3, .ofInt 4, .ofInt 5] none) :=
    .element hshelf (by simp)
  obtain ⟨-, hnested, hlongest⟩ := initialLengths_eq_nestedLengths (some shelves) 4
  obtain ⟨-, hattained⟩ := hlongest 2 3 (by rw [hlengths]; rfl)
  exact ⟨hlengths, hnested ▸ hlengths, hattained ⟨_, _, hbox⟩⟩

end AutomataNet
