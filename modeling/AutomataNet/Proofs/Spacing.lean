import AutomataNet.Model.Expansion
import Mathlib
/-!
# Evenly spaced integers

A range of integers that is longer than the cap is represented by some of its integers: the points
that divide the range evenly, each rounded to the nearest integer (`EvenlySpaced`). Rounding neither
merges two points nor moves an end. The points are computed by multiplying before dividing, and the
product of two numbers of 64 bits still has its place in 128 bits (`machineSpacing?_eq`).
-/

namespace AutomataNet

/-! ## One point -/

/-- How far point `i` is from the start, when `span` is divided into `steps` steps. -/
def spacedOffset (span steps i : Int) : Int := (2 * i * span + steps) / (2 * steps)

section

variable {span steps : Int} (hsteps : 0 < steps)

include hsteps

/-- The offset is the exact quotient rounded to the nearest integer, and a half goes up. -/
theorem spacedOffset_bounds (span i : Int) :
    2 * steps * spacedOffset span steps i ≤ 2 * i * span + steps ∧
      2 * i * span < 2 * steps * spacedOffset span steps i + steps := by
  have hpos : 0 < 2 * steps := by omega
  have hle := Int.mul_ediv_self_le (x := 2 * i * span + steps) hpos.ne'
  have hlt := Int.lt_mul_ediv_self_add (x := 2 * i * span + steps) hpos
  unfold spacedOffset
  constructor <;> omega

theorem spacedOffset_zero : spacedOffset span steps 0 = 0 := by
  rw [spacedOffset, mul_zero, zero_mul, zero_add]
  exact Int.ediv_eq_zero_of_lt hsteps.le (by omega)

theorem spacedOffset_steps : spacedOffset span steps steps = span := by
  have hsplit : 2 * steps * span + steps = steps + 2 * steps * span := add_comm ..
  rw [spacedOffset, hsplit, Int.add_mul_ediv_left _ _ (by omega),
    Int.ediv_eq_zero_of_lt hsteps.le (by omega), zero_add]

/-- A step is no shorter than 1, so rounding keeps the points apart. -/
theorem spacedOffset_lt (hspan : steps ≤ span) {i j : Int} (hij : i < j) :
    spacedOffset span steps i < spacedOffset span steps j := by
  have hi := spacedOffset_bounds hsteps span i
  have hj := spacedOffset_bounds hsteps span j
  have hstep : 2 * i * span + 2 * steps ≤ 2 * j * span := by nlinarith
  by_contra hle
  have hmul : 2 * steps * spacedOffset span steps j ≤ 2 * steps * spacedOffset span steps i :=
    Int.mul_le_mul_of_nonneg_left (not_lt.1 hle) (by omega)
  omega

theorem spacedOffset_le (hspan : steps ≤ span) {i j : Int} (hij : i ≤ j) :
    spacedOffset span steps i ≤ spacedOffset span steps j := by
  rcases hij.lt_or_eq with hlt | rfl
  · exact (spacedOffset_lt hsteps hspan hlt).le
  · exact le_rfl

theorem spacedOffset_mem (hspan : steps ≤ span) {i : Int} (h0 : 0 ≤ i) (hi : i ≤ steps) :
    0 ≤ spacedOffset span steps i ∧ spacedOffset span steps i ≤ span := by
  have hfirst := spacedOffset_le hsteps hspan h0
  have hlast := spacedOffset_le hsteps hspan hi
  rw [spacedOffset_zero hsteps] at hfirst
  rw [spacedOffset_steps hsteps] at hlast
  exact ⟨hfirst, hlast⟩

theorem abs_spacedOffset_sub_le (span i : Int) :
    |(spacedOffset span steps i : ℚ) - i * span / steps| ≤ 1 / 2 := by
  obtain ⟨hle, hlt⟩ := spacedOffset_bounds hsteps span i
  have hpos : (0 : ℚ) < steps := by exact_mod_cast hsteps
  have hle' : 2 * (steps : ℚ) * spacedOffset span steps i ≤ 2 * i * span + steps := by
    exact_mod_cast hle
  have hlt' : 2 * (i : ℚ) * span < 2 * steps * spacedOffset span steps i + steps := by
    exact_mod_cast hlt
  have hexact : (i : ℚ) * span / steps * steps = i * span := div_mul_cancel₀ _ hpos.ne'
  rw [abs_le]
  constructor <;> nlinarith

end

/-! ## All points -/

/-- What the integers that stand for the range from `lo` to `hi` are. -/
structure EvenlySpaced (lo hi : Int) (cap : Nat) (ns : List Int) : Prop where
  length : (ns.length : Int) = min (hi - lo + 1) (max cap 1 : Nat)
  increasing : ns.Pairwise (· < ·)
  within : ∀ n ∈ ns, lo ≤ n ∧ n ≤ hi
  first : ns.head? = some lo
  /-- The other end is left out only when there is room for one integer of several. -/
  last : ns.getLast? = some hi ↔ ¬(max cap 1 = 1 ∧ 1 < hi - lo + 1)
  all : hi - lo < (max cap 1 : Nat) → ∀ n, n ∈ ns ↔ lo ≤ n ∧ n ≤ hi
  even : (max cap 1 : Nat) ≤ hi - lo → 2 ≤ cap → ∀ (i : Nat) (n : Int), ns[i]? = some n →
    |(n : ℚ) - (lo + i * (hi - lo) / (cap - 1))| ≤ 1 / 2

/-- The whole range, one integer, or points that divide the range. -/
theorem spacedIntegers_cases (lo hi : Int) (cap : Nat) :
    (hi - lo < (max cap 1 : Nat) ∧ spacedIntegers lo hi cap =
      (List.range ((hi - lo).toNat + 1)).map fun (i : Nat) => lo + i) ∨
    ((max cap 1 : Nat) ≤ hi - lo ∧ cap ≤ 1 ∧ spacedIntegers lo hi cap = [lo]) ∨
    ((cap : Int) ≤ hi - lo ∧ 2 ≤ cap ∧ spacedIntegers lo hi cap =
      (List.range cap).map fun (i : Nat) => lo + spacedOffset (hi - lo) (cap - 1) i) := by
  unfold spacedIntegers
  dsimp only
  split
  · rename_i hall
    exact .inl ⟨hall, rfl⟩
  · rename_i hspan
    split
    · rename_i hone
      exact .inr (.inl ⟨by omega, by omega, rfl⟩)
    · rename_i hmany
      have hcap : max cap 1 = cap := by omega
      rw [hcap] at hspan ⊢
      exact .inr (.inr ⟨by omega, by omega, rfl⟩)

section

variable {lo hi : Int} {cap : Nat}

theorem evenlySpaced_range (hle : lo ≤ hi) (hall : hi - lo < (max cap 1 : Nat)) :
    EvenlySpaced lo hi cap ((List.range ((hi - lo).toNat + 1)).map fun (i : Nat) => lo + i) where
  length := by
    rw [List.length_map, List.length_range]
    omega
  increasing := by
    refine List.pairwise_map.2 (List.pairwise_lt_range.imp ?_)
    intro i j hij
    omega
  within := by
    intro n hn
    obtain ⟨i, hi, rfl⟩ := List.mem_map.1 hn
    have := List.mem_range.1 hi
    omega
  first := by
    rw [List.range_succ_eq_map, List.map_cons, List.head?_cons, Nat.cast_zero, add_zero]
  last := by
    rw [List.range_succ, List.map_append, List.map_singleton, List.getLast?_concat]
    constructor
    · intro _
      omega
    · intro _
      rw [Option.some.injEq]
      omega
  all := by
    intro _ n
    rw [List.mem_map]
    constructor
    · rintro ⟨i, hi, rfl⟩
      have := List.mem_range.1 hi
      omega
    · intro hn
      exact ⟨(n - lo).toNat, List.mem_range.2 (by omega), by omega⟩
  even := by
    intro hspan
    omega

theorem evenlySpaced_singleton (hspan : (max cap 1 : Nat) ≤ hi - lo) (hcap : cap ≤ 1) :
    EvenlySpaced lo hi cap [lo] where
  length := by
    rw [List.length_singleton]
    omega
  increasing := List.pairwise_singleton _ _
  within := by
    intro n hn
    rw [List.mem_singleton.1 hn]
    omega
  first := rfl
  last := by
    rw [List.getLast?_singleton, Option.some.injEq]
    omega
  all := by
    intro hall
    omega
  even := by
    intro _ htwo
    omega

theorem evenlySpaced_points (hspan : (cap : Int) ≤ hi - lo) (hcap : 2 ≤ cap) :
    EvenlySpaced lo hi cap
      ((List.range cap).map fun (i : Nat) => lo + spacedOffset (hi - lo) (cap - 1) i) := by
  have hsteps : (0 : Int) < cap - 1 := by omega
  have hle : (cap : Int) - 1 ≤ hi - lo := by omega
  obtain ⟨steps, rfl⟩ : ∃ steps, cap = steps + 1 := ⟨cap - 1, by omega⟩
  exact
    { length := by
        rw [List.length_map, List.length_range]
        omega
      increasing := by
        refine List.pairwise_map.2 (List.pairwise_lt_range.imp ?_)
        intro i j hij
        have := spacedOffset_lt hsteps hle (Int.ofNat_lt.2 hij)
        omega
      within := by
        intro n hn
        obtain ⟨i, hi, rfl⟩ := List.mem_map.1 hn
        have hi := List.mem_range.1 hi
        have := spacedOffset_mem hsteps hle (Int.natCast_nonneg i) (by omega)
        omega
      first := by
        rw [List.range_succ_eq_map, List.map_cons, List.head?_cons, Nat.cast_zero,
          spacedOffset_zero hsteps, add_zero]
      last := by
        have hlast : ((steps : Nat) : Int) = ((steps + 1 : Nat) : Int) - 1 := by omega
        rw [List.range_succ, List.map_append, List.map_singleton, List.getLast?_concat, hlast,
          spacedOffset_steps hsteps, Option.some.injEq]
        omega
      all := by
        intro hall
        omega
      even := by
        intro _ _ i n hn
        rw [List.getElem?_map] at hn
        obtain ⟨k, hk, rfl⟩ := Option.map_eq_some_iff.1 hn
        obtain ⟨_, rfl⟩ := List.getElem?_eq_some_iff.1 hk
        rw [List.getElem_range]
        have hround := abs_spacedOffset_sub_le hsteps (hi - lo) i
        push_cast at hround ⊢
        rwa [add_sub_add_left_eq_sub] }

end

theorem evenlySpaced_spacedIntegers {lo hi : Int} (hle : lo ≤ hi) (cap : Nat) :
    EvenlySpaced lo hi cap (spacedIntegers lo hi cap) := by
  rcases spacedIntegers_cases lo hi cap with ⟨hall, h⟩ | ⟨hspan, hone, h⟩ | ⟨hspan, hmany, h⟩
  · rw [h]
    exact evenlySpaced_range hle hall
  · rw [h]
    exact evenlySpaced_singleton hspan hone
  · rw [h]
    exact evenlySpaced_points hspan hmany

/-! ## In machine arithmetic -/

/-- The number itself, if so many bits can hold it with its sign. -/
def fit? (bits : Nat) (n : Int) : Option Int :=
  if -2 ^ (bits - 1) ≤ n ∧ n < 2 ^ (bits - 1) then some n else none

/-- One point, computed in 128 bits and kept in 64 bits; `none` at the first number that does not
fit. -/
def machinePoint? (lo span steps i : Int) : Option Int := do
  let twice ← fit? 128 (2 * i)
  let scaled ← fit? 128 (twice * span)
  let shifted ← fit? 128 (scaled + steps)
  let divisor ← fit? 128 (2 * steps)
  let offset ← fit? 128 (shifted.tdiv divisor)
  let point ← fit? 128 (lo + offset)
  fit? 64 point

/-- All points in the same arithmetic. -/
def machineSpacing? (lo hi : Int) (cap : Nat) : Option (List Int) := do
  let span ← fit? 128 (hi - lo)
  let count ← fit? 128 (max cap 1 : Nat)
  if span < count then (List.range (span.toNat + 1)).mapM fun (i : Nat) => fit? 64 (lo + i)
  else if count = 1 then List.singleton <$> fit? 64 lo
  else do
    let steps ← fit? 128 (count - 1)
    (List.range count.toNat).mapM fun (i : Nat) => machinePoint? lo span steps i

theorem fit?_eq_some {bits : Nat} {n : Int} (hlo : -2 ^ (bits - 1) ≤ n) (hhi : n < 2 ^ (bits - 1)) :
    fit? bits n = some n := if_pos ⟨hlo, hhi⟩

theorem mapM_eq_some_map {α β : Type} {f : α → Option β} {g : α → β} {as : List α}
    (h : ∀ a ∈ as, f a = some (g a)) : as.mapM f = some (as.map g) := by
  induction as with
  | nil => rfl
  | cons a as ih =>
    obtain ⟨ha, has⟩ := List.forall_mem_cons.1 h
    rw [List.mapM_cons, ha, ih has]
    rfl

/-- The largest number on the way is below the product of 62 bits and 65 bits. -/
theorem machinePoint?_eq {lo span steps i : Int} (hlo : -2 ^ 63 ≤ lo) (hend : lo + span < 2 ^ 63)
    (hsteps : 0 < steps) (hspan : steps ≤ span) (hcap : steps < 2 ^ 62) (h0 : 0 ≤ i)
    (hi : i ≤ steps) :
    machinePoint? lo span steps i = some (lo + spacedOffset span steps i) := by
  have hfit {n : Int} (hn : -2 ^ 127 ≤ n) (hn' : n < 2 ^ 127) : fit? 128 n = some n :=
    fit?_eq_some hn hn'
  have hproduct : 0 ≤ 2 * i * span := Int.mul_nonneg (by omega) (by omega)
  have hproduct' : 2 * i * span ≤ 2 * (2 ^ 62 - 1) * (2 ^ 64 - 1) :=
    Int.mul_le_mul (by omega) (by omega) (by omega) (by omega)
  -- dividing toward zero is dividing to the floor here
  have hquotient : (2 * i * span + steps).tdiv (2 * steps) = spacedOffset span steps i :=
    Int.tdiv_eq_ediv_of_nonneg (by omega)
  obtain ⟨hoffset, hoffset'⟩ := spacedOffset_mem hsteps hspan h0 hi
  have hresult : fit? 64 (lo + spacedOffset span steps i) = some (lo + spacedOffset span steps i) :=
    fit?_eq_some (by omega) (by omega)
  simp (disch := omega) only [machinePoint?, hfit, hquotient, hresult, Option.bind_eq_bind,
    Option.bind_some]

/-- No number on the way needs more than 128 bits, and no result more than 64. -/
theorem machineSpacing?_eq {lo hi : Int} {cap : Nat} (hlo : -2 ^ 63 ≤ lo) (hhi : hi < 2 ^ 63)
    (hle : lo ≤ hi) (hcap : cap ≤ 2 ^ 62) :
    machineSpacing? lo hi cap = some (spacedIntegers lo hi cap) := by
  have hspan : fit? 128 (hi - lo) = some (hi - lo) := fit?_eq_some (by omega) (by omega)
  have hcount : fit? 128 (max cap 1 : Nat) = some ((max cap 1 : Nat) : Int) :=
    fit?_eq_some (by omega) (by omega)
  simp only [machineSpacing?, hspan, hcount, Option.bind_eq_bind, Option.bind_some]
  rcases spacedIntegers_cases lo hi cap with ⟨hall, h⟩ | ⟨hlong, hone, h⟩ | ⟨hlong, hmany, h⟩
  · rw [if_pos hall, h]
    apply mapM_eq_some_map
    intro i hi
    have := List.mem_range.1 hi
    exact fit?_eq_some (by omega) (by omega)
  · have hmax : max cap 1 = 1 := by omega
    have hstart : fit? 64 lo = some lo := fit?_eq_some (by omega) (by omega)
    rw [if_neg (by omega), if_pos (by omega), h, hstart]
    rfl
  · have hmax : max cap 1 = cap := by omega
    have hsteps : fit? 128 ((cap : Int) - 1) = some ((cap : Int) - 1) :=
      fit?_eq_some (by omega) (by omega)
    rw [if_neg (by omega), if_neg (by omega), h, hmax, hsteps, Option.bind_some, Int.toNat_natCast]
    apply mapM_eq_some_map
    intro i hi
    have := List.mem_range.1 hi
    exact machinePoint?_eq hlo (by omega) (by omega) (by omega) (by omega) (by omega) (by omega)

/-! ## The integers of a uniform choice -/

/-- Integers of a range of 64 bits are evenly spaced, and computing them needs no more than 128 bits
on the way and 64 bits for each result. -/
theorem spacedIntegers_evenlySpaced (lo hi : Int64) (hle : lo ≤ hi) (cap : Nat)
    (hcap : cap ≤ 2 ^ 62) :
    machineSpacing? lo.toInt hi.toInt cap = some (spacedIntegers lo.toInt hi.toInt cap) ∧
      (∀ n ∈ spacedIntegers lo.toInt hi.toInt cap, (Int64.ofInt n).toInt = n) ∧
      EvenlySpaced lo.toInt hi.toInt cap (spacedIntegers lo.toInt hi.toInt cap) := by
  have hlo := Int64.le_toInt lo
  have hhi := Int64.toInt_lt hi
  have hspaced := evenlySpaced_spacedIntegers (Int64.le_iff_toInt_le.1 hle) cap
  refine ⟨machineSpacing?_eq hlo hhi (Int64.le_iff_toInt_le.1 hle) hcap, fun n hn => ?_, hspaced⟩
  obtain ⟨hn, hn'⟩ := hspaced.within n hn
  exact Int64.toInt_ofInt_of_le (by omega) (by omega)

/-- Three integers stand for all that 64 bits can hold. -/
theorem spacedIntegers_evenlySpaced_full :
    machineSpacing? Int64.minValue.toInt Int64.maxValue.toInt 3 =
        some [-2 ^ 63, 0, 2 ^ 63 - 1] ∧
      EvenlySpaced Int64.minValue.toInt Int64.maxValue.toInt 3 [-2 ^ 63, 0, 2 ^ 63 - 1] := by
  have hpoints : spacedIntegers Int64.minValue.toInt Int64.maxValue.toInt 3 =
      [-2 ^ 63, 0, 2 ^ 63 - 1] := by decide +kernel
  obtain ⟨hmachine, -, hspaced⟩ :=
    spacedIntegers_evenlySpaced Int64.minValue Int64.maxValue (by decide) 3 (by decide)
  rw [hpoints] at hmachine hspaced
  exact ⟨hmachine, hspaced⟩

end AutomataNet
