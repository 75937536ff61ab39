import AutomataNet.Proofs.Companions
import AutomataNet.Proofs.Lengths
/-!
# Giving capacities

An array is given its capacities in one go: either the request is refused and the registry stays as
it is, or the array gets its capacities and all companions that it still lacks
(`setCapacities_atomic`). Companions are told apart by their dimension, so that declaring them one
after the other cannot fail halfway.

A request is refused for what the array is, or for an initial value that is too long. The lengths of
an initial value are read off level by level, and each is the length of the longest array value on
its level (`Longest`).
-/

namespace AutomataNet

/-- Along some dimension, the longest array value of the initial value is above the capacity. -/
def Variable.Exceeds (v : Variable) (capacities : List Nat) : Prop :=
  ∃ d capacity length : Nat, capacities[d]? = some capacity ∧
    Longest v.initial.toList d length ∧ capacity < length

/-- The variable is the companion of `v` along a dimension, counted from 0: an integer from 0 to the
capacity that starts at the length of the initial value. Numbers beyond 64 bits stay at the largest
one. -/
def Variable.IsCompanion (v : Variable) (capacities : List Nat) (d : Nat) (w : Variable) : Prop :=
  ∃ (capacity length : Nat) (upper start : Int64), capacities[d]? = some capacity ∧
    Longest v.initial.toList d length ∧ upper.toInt = min (capacity : Int) (2 ^ 63 - 1) ∧
    start.toInt = min (length : Int) (2 ^ 63 - 1) ∧ 0 ≤ start ∧ start ≤ upper ∧
    w = { name := lengthName v.name (d + 1), type := .boundedInt 0 upper,
          initial := some (.ofInt start) }

namespace Registry

/-- The sizes of an array along its dimensions: the capacity, and the length at the start. -/
theorem getElem?_sizes_iff {v : Variable} {capacities : List Nat}
    (hlevels : capacities.length = v.type.dimensions) {d capacity length : Nat} :
    (sizes v capacities)[d]? = some (capacity, length) ↔
      capacities[d]? = some capacity ∧ Longest v.initial.toList d length := by
  rw [sizes, List.getElem?_zip_eq_some]
  apply and_congr_right
  intro hd
  have hlt : d < (initialLengths v.initial v.type.dimensions).length := by
    rw [initialLengths, length_levelLengths, ← hlevels]
    exact (List.getElem?_eq_some_iff.1 hd).1
  have hlongest := longest_of_levelLengths (List.getElem?_eq_getElem hlt)
  rw [List.getElem?_eq_getElem hlt, Option.some.injEq]
  constructor
  · rintro rfl
    exact hlongest
  · intro h
    exact hlongest.unique h

/-! ## Refusals -/

theorem overflow?_eq_none_iff {d : Nat} {sizes : List (Nat × Nat)} :
    overflow? d sizes = none ↔ ∀ size ∈ sizes, size.2 ≤ size.1 := by
  induction sizes generalizing d with
  | nil => simp [overflow?]
  | cons size sizes ih =>
    rw [overflow?, List.forall_mem_cons]
    by_cases hlt : size.1 < size.2
    · rw [if_pos hlt]
      simp [hlt]
    · rw [if_neg hlt, ih]
      exact (and_iff_right (not_lt.1 hlt)).symm

/-- The first size that is too small is reported. -/
theorem overflow?_eq_some {d k length capacity : Nat} {sizes : List (Nat × Nat)}
    (h : overflow? d sizes = some (k, length, capacity)) :
    ∃ i, k = d + i ∧ sizes[i]? = some (capacity, length) ∧ capacity < length ∧
      ∀ j < i, ∀ size, sizes[j]? = some size → size.2 ≤ size.1 := by
  induction sizes generalizing d with
  | nil => cases h
  | cons size sizes ih =>
    rw [overflow?] at h
    split at h
    · rename_i hlt
      obtain ⟨rfl, rfl, rfl⟩ := h
      exact ⟨0, rfl, rfl, hlt, fun j hj => absurd hj (Nat.not_lt_zero j)⟩
    · rename_i hle
      obtain ⟨i, rfl, hi, hlt, hbefore⟩ := ih h
      refine ⟨i + 1, by omega, hi, hlt, fun j hj size' hsize => ?_⟩
      cases j with
      | zero =>
        obtain rfl := Option.some.inj hsize
        exact not_lt.1 hle
      | succ j => exact hbefore j (by omega) size' hsize

theorem overflow?_sizes_eq_none_iff {v : Variable} {capacities : List Nat}
    (hlevels : capacities.length = v.type.dimensions) :
    overflow? 1 (sizes v capacities) = none ↔ ¬ v.Exceeds capacities := by
  rw [overflow?_eq_none_iff]
  constructor
  · rintro hfits ⟨d, capacity, length, hd, hlongest, hlt⟩
    have hmem := List.mem_of_getElem? ((getElem?_sizes_iff hlevels).2 ⟨hd, hlongest⟩)
    exact not_lt.2 (hfits _ hmem) hlt
  · rintro hfits ⟨capacity, length⟩ hmem
    obtain ⟨d, hsize⟩ := List.mem_iff_getElem?.1 hmem
    obtain ⟨hd, hlongest⟩ := (getElem?_sizes_iff hlevels).1 hsize
    exact not_lt.1 fun hlt => hfits ⟨d, capacity, length, hd, hlongest, hlt⟩

/-- Why a request for capacities is refused. -/
inductive Refusal (r : Registry) (name : String) (capacities : List Nat) : RegistryError → Prop
  | unknown (undeclared : name ∉ r.names) : Refusal r name capacities (.unknown name)
  | notAnArray {v : Variable} (declared : v ∈ r.vars) (named : v.name = name)
      (scalar : v.isArray = false) : Refusal r name capacities (.notAnArray name)
  | dimensions {v : Variable} (declared : v ∈ r.vars) (named : v.name = name)
      (array : v.isArray = true) (levels : capacities.length ≠ v.type.dimensions) :
      Refusal r name capacities (.dimensionMismatch name v.type.dimensions capacities.length)
  /-- The first dimension that is too long is reported. -/
  | exceeded {v : Variable} {d capacity length : Nat} (declared : v ∈ r.vars)
      (named : v.name = name) (array : v.isArray = true)
      (levels : capacities.length = v.type.dimensions) (given : capacities[d]? = some capacity)
      (longest : Longest v.initial.toList d length) (long : capacity < length)
      (first : ¬ v.Exceeds (capacities.take d)) :
      Refusal r name capacities (.capacityExceeded name (d + 1) length capacity)

section

variable {r : Registry} {name : String} {capacities : List Nat}

theorem refusal_of_error {e : RegistryError}
    (h : (r.setCapacities name capacities).outcome = .error e) :
    (r.setCapacities name capacities).state = r ∧ r.Refusal name capacities e := by
  have hrequest := request_setCapacities name capacities r
  generalize r.setCapacities name capacities = x at hrequest h ⊢
  cases hrequest with
  | unknown find =>
    cases h
    refine ⟨rfl, .unknown (mt contains_iff.2 ?_)⟩
    simp [contains_iff_find?, find]
  | notAnArray find scalar =>
    cases h
    obtain ⟨hv, hname⟩ := find?_eq_some_iff.1 find
    exact ⟨rfl, .notAnArray hv hname scalar⟩
  | dimensions find array levels =>
    cases h
    obtain ⟨hv, hname⟩ := find?_eq_some_iff.1 find
    exact ⟨rfl, .dimensions hv hname array levels⟩
  | exceeded find array levels long =>
    cases h
    obtain ⟨hv, hname⟩ := find?_eq_some_iff.1 find
    obtain ⟨d, rfl, hsize, hlt, hbefore⟩ := overflow?_eq_some long
    obtain ⟨hd, hlongest⟩ := (getElem?_sizes_iff levels).1 hsize
    rw [Nat.add_comm]
    refine ⟨rfl, .exceeded hv hname array levels hd hlongest hlt ?_⟩
    rintro ⟨k, capacity, length, hk, hlong, hkl⟩
    rw [List.getElem?_take] at hk
    by_cases hkd : k < d
    · rw [if_pos hkd] at hk
      exact not_lt.2 (hbefore k hkd _ ((getElem?_sizes_iff levels).2 ⟨hk, hlong⟩)) hkl
    · rw [if_neg hkd] at hk
      cases hk
  | given _ _ _ _ ok _ => rw [ok] at h; cases h

/-- A request that is not refused is for an array that fits. -/
theorem given_of_ok (h : (r.setCapacities name capacities).outcome = .ok ()) :
    ∃ v ∈ r.vars, v.name = name ∧ v.isArray = true ∧ capacities.length = v.type.dimensions ∧
      ¬ v.Exceeds capacities ∧ (r.setCapacities name capacities).state.vars =
        sized name capacities r.vars ++ r.missing name 1 (sizes v capacities) := by
  have hrequest := request_setCapacities name capacities r
  generalize r.setCapacities name capacities = x at hrequest h ⊢
  cases hrequest with
  | unknown | notAnArray | dimensions | exceeded => cases h
  | @given v _ find array levels fits _ vars =>
    obtain ⟨hv, hname⟩ := find?_eq_some_iff.1 find
    exact ⟨v, hv, hname, array, levels, (overflow?_sizes_eq_none_iff levels).1 fits, vars⟩

theorem setCapacities_refused_iff :
    (∃ e, (r.setCapacities name capacities).outcome = .error e) ↔
      name ∉ r.names ∨ ∃ v ∈ r.vars, v.name = name ∧
        (v.isArray = false ∨ capacities.length ≠ v.type.dimensions ∨ v.Exceeds capacities) := by
  constructor
  · rintro ⟨e, h⟩
    cases (refusal_of_error h).2 with
    | unknown undeclared => exact .inl undeclared
    | notAnArray hv hname scalar => exact .inr ⟨_, hv, hname, .inl scalar⟩
    | dimensions hv hname _ levels => exact .inr ⟨_, hv, hname, .inr (.inl levels)⟩
    | exceeded hv hname _ _ given longest long _ =>
      exact .inr ⟨_, hv, hname, .inr (.inr ⟨_, _, _, given, longest, long⟩)⟩
  · intro hwrong
    cases h : (r.setCapacities name capacities).outcome with
    | error e => exact ⟨e, rfl⟩
    | ok =>
      obtain ⟨v, hv, rfl, array, levels, fits, -⟩ := given_of_ok h
      exfalso
      rcases hwrong with hname | ⟨u, hu, hname, hwrong⟩
      · exact hname (List.mem_map.2 ⟨v, hv, rfl⟩)
      · obtain rfl := List.inj_on_of_nodup_map r.nodup_names hu hv hname
        rcases hwrong with scalar | levels' | long
        · rw [array] at scalar
          cases scalar
        · exact levels' levels
        · exact fits long

/-- An array with one capacity for each dimension is refused only if it is too long. -/
theorem setCapacities_ok_iff {v : Variable} (hv : v ∈ r.vars) (harray : v.isArray = true)
    (hlevels : capacities.length = v.type.dimensions) :
    (r.setCapacities v.name capacities).outcome = .ok () ↔ ¬ v.Exceeds capacities := by
  have hrefused : (∃ e, (r.setCapacities v.name capacities).outcome = .error e) ↔
      v.Exceeds capacities := by
    rw [setCapacities_refused_iff]
    constructor
    · rintro (hname | ⟨u, hu, hname, hwrong⟩)
      · exact absurd (List.mem_map_of_mem hv) hname
      · obtain rfl := List.inj_on_of_nodup_map r.nodup_names hu hv hname
        rcases hwrong with hscalar | hlevels' | hlong
        · rw [harray] at hscalar
          cases hscalar
        · exact absurd hlevels hlevels'
        · exact hlong
    · intro hlong
      exact .inr ⟨v, hv, rfl, .inr (.inr hlong)⟩
  rw [← hrefused]
  cases (r.setCapacities v.name capacities).outcome with
  | error e => simp
  | ok => simp

end

/-! ## New companions -/

/-- The variables are the companions that are not declared yet, in the order of dimensions. -/
def NewCompanions (r : Registry) (v : Variable) (capacities : List Nat) (added : List Variable) :
    Prop :=
  List.Forall₂ (v.IsCompanion capacities)
    ((List.range capacities.length).filter fun d => lengthName v.name (d + 1) ∉ r.names) added

theorem isCompanion_lengthVariable {v : Variable} {capacities : List Nat} {d capacity length : Nat}
    (hd : capacities[d]? = some capacity) (hlongest : Longest v.initial.toList d length)
    (hle : length ≤ capacity) :
    v.IsCompanion capacities d (lengthVariable v.name (d + 1) capacity length) := by
  refine ⟨capacity, length, saturated capacity, saturated length, hd, hlongest,
    toInt_saturated capacity, toInt_saturated length, ?_, ?_, rfl⟩
  · rw [Int64.le_iff_toInt_le, toInt_saturated, Int64.toInt_zero]
    omega
  · rw [Int64.le_iff_toInt_le, toInt_saturated, toInt_saturated]
    omega

theorem newCompanions_missing {r : Registry} {v : Variable} {capacities : List Nat}
    (hlevels : capacities.length = v.type.dimensions) (hfits : ¬ v.Exceeds capacities) :
    r.NewCompanions v capacities (r.missing v.name 1 (sizes v capacities)) := by
  have hall : List.Forall₂ (v.IsCompanion capacities) (List.range capacities.length)
      (companions v.name 1 (sizes v capacities)) := by
    rw [List.forall₂_iff_get]
    refine ⟨by simp [companions, length_sizes hlevels], fun d hd hd' => ?_⟩
    have hsize : d < (sizes v capacities).length := by simpa [companions] using hd'
    obtain ⟨hcapacity, hlongest⟩ :=
      (getElem?_sizes_iff hlevels).1 (List.getElem?_eq_getElem hsize)
    have hle := not_lt.1 fun hlt => hfits ⟨d, _, _, hcapacity, hlongest, hlt⟩
    simpa [companions, Nat.add_comm] using isCompanion_lengthVariable hcapacity hlongest hle
  refine List.rel_filter ?_ hall
  rintro d w ⟨_, _, _, _, -, -, -, -, -, -, rfl⟩
  simp [contains_eq_false_iff]

end Registry

open Registry in
/-- A request for capacities is refused as a whole, or it is granted as a whole. It is refused if
the name is not declared, if it is not that of an array, if there is not one capacity for each
dimension, or if the initial value is too long along some dimension, the first of which is reported.
Then nothing changes. Otherwise one variable is given its capacities, and the companions that it
lacks are added. -/
theorem setCapacities_atomic (r : Registry) (name : String) (capacities : List Nat) :
    ((∃ e, (r.setCapacities name capacities).outcome = .error e) ↔
      name ∉ r.names ∨ ∃ v ∈ r.vars, v.name = name ∧
        (v.isArray = false ∨ capacities.length ≠ v.type.dimensions ∨ v.Exceeds capacities)) ∧
    (∀ e, (r.setCapacities name capacities).outcome = .error e →
      (r.setCapacities name capacities).state = r ∧ r.Refusal name capacities e ∧
        ∀ n, e ≠ .duplicate n) ∧
    ((r.setCapacities name capacities).outcome = .ok () →
      ∃ v ∈ r.vars, v.name = name ∧ ∃ added, r.NewCompanions v capacities added ∧
        (r.setCapacities name capacities).state.vars =
          (r.vars.map fun u =>
            if u.name = name then { u with capacities := some capacities } else u) ++ added) := by
  refine ⟨setCapacities_refused_iff, fun e he => ?_, fun hok => ?_⟩
  · obtain ⟨hstate, hrefusal⟩ := refusal_of_error he
    refine ⟨hstate, hrefusal, fun n hduplicate => ?_⟩
    subst hduplicate
    cases hrefusal
  · obtain ⟨v, hv, rfl, -, hlevels, hfits, hvars⟩ := given_of_ok hok
    exact ⟨v, hv, rfl, _, newCompanions_missing hlevels hfits, hvars⟩

/-- A table whose rows differ in length. The variable for their number is declared by hand. -/
def raggedTable : Registry :=
  .ofList [
    { name := "table", type := .array (.array (.basic .int)),
      initial := some (.arrayValue
        [.arrayValue [.ofInt 1] none, .arrayValue [.ofInt 2, .ofInt 3] none] none) },
    { name := "table_length_1", type := .basic .int }]

/-- Only the length of the rows is declared; with room for one in a row, the table does not fit. -/
theorem setCapacities_atomic_raggedTable :
    (raggedTable.setCapacities "table" [2, 3]).outcome = .ok () ∧
      (∃ v ∈ raggedTable.vars, v.name = "table" ∧ ∃ added,
        raggedTable.NewCompanions v [2, 3] added ∧
        (raggedTable.setCapacities "table" [2, 3]).state.vars =
          (raggedTable.vars.map fun u =>
            if u.name = "table" then { u with capacities := some [2, 3] } else u) ++ added) ∧
      (raggedTable.setCapacities "table" [2, 1]).outcome =
        .error (.capacityExceeded "table" 2 2 1) ∧
      (raggedTable.setCapacities "table" [2, 1]).state = raggedTable := by
  have hok : (raggedTable.setCapacities "table" [2, 3]).outcome = .ok () := by decide +kernel
  have herr : (raggedTable.setCapacities "table" [2, 1]).outcome =
      .error (.capacityExceeded "table" 2 2 1) := by decide +kernel
  have hgiven := (setCapacities_atomic raggedTable "table" [2, 3]).2.2 hok
  have hrefused := (setCapacities_atomic raggedTable "table" [2, 1]).2.1 _ herr
  exact ⟨hok, hgiven, herr, hrefused.1⟩

end AutomataNet
