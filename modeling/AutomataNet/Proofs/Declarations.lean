import AutomataNet.Proofs.Records
import AutomataNet.Variable.Registry
/-!
# Declarations

However a registry came about, by declarations one after the other or from a file, its names differ,
the index leads from each of them to the place of its variable and knows no others, and arrays with
capacities have a companion for each dimension (`registry_consistent`). Later declarations leave the
variables where and as they are, except for the capacities of arrays, and the index has them where
it had them.

All changes are made of two steps (`Registry.Step`): a variable of a new name is added, or an array
is given its capacities together with the companions that are missing.
-/

namespace AutomataNet

/-! ## Names of companions -/

theorem toList_lengthName (array : String) (d : Nat) :
    (lengthName array d).toList = array.toList ++ ("_length_".toList ++ Nat.toDigits 10 d) := by
  show (array ++ "_length_" ++ toString d).toList = _
  rw [String.toList_append, String.toList_append, Nat.toString_eq_repr, Nat.toList_repr,
    List.append_assoc]

theorem lengthName_ne (array : String) (d : Nat) : lengthName array d ≠ array := by
  intro h
  have hlen := congrArg List.length (congrArg String.toList h)
  have hmark : "_length_".toList.length = 8 := rfl
  rw [toList_lengthName, List.length_append, List.length_append] at hlen
  omega

/-- The mark before the dimension does not end in a digit. -/
theorem takeWhile_isDigit_lengthName (array : String) (d : Nat) :
    (lengthName array d).toList.reverse.takeWhile Char.isDigit = (Nat.toDigits 10 d).reverse := by
  have hdigits : ∀ c ∈ (Nat.toDigits 10 d).reverse, c.isDigit = true := by
    intro c hc
    exact Nat.isDigit_of_mem_toDigits (by omega) (by omega) (List.mem_reverse.1 hc)
  rw [toList_lengthName, List.reverse_append, List.reverse_append, List.append_assoc,
    List.takeWhile_append_of_pos hdigits]
  exact List.append_nil _

/-- The name of a companion tells the array and the dimension. -/
theorem lengthName_inj {a b : String} {d e : Nat} (h : lengthName a d = lengthName b e) :
    a = b ∧ d = e := by
  have hdigits : Nat.toDigits 10 d = Nat.toDigits 10 e := by
    have hrev := congrArg (fun s : String => s.toList.reverse.takeWhile Char.isDigit) h
    simpa only [takeWhile_isDigit_lengthName, List.reverse_inj] using hrev
  have harray : a.toList = b.toList := by
    have hlist := congrArg String.toList h
    rw [toList_lengthName, toList_lengthName, hdigits] at hlist
    exact List.append_cancel_right hlist
  refine ⟨String.toList_inj.1 harray, ?_⟩
  have hnumber := congrArg (fun ds => Nat.ofDigitChars 10 ds 0) hdigits
  simpa [Nat.ofDigitChars_toDigits] using hnumber

/-! ## Names and places -/

/-- Where names differ, the first item of a name is the only one. -/
theorem find?_key_eq_some_iff {α : Type} {key : α → String} {items : List α}
    (hn : (items.map key).Nodup) {name : String} {a : α} :
    items.find? (key · = name) = some a ↔ a ∈ items ∧ key a = name := by
  constructor
  · intro h
    exact ⟨List.mem_of_find?_eq_some h, by simpa using List.find?_some h⟩
  · rintro ⟨ha, rfl⟩
    cases h : items.find? (key · = key a) with
    | none => simpa using List.find?_eq_none.1 h a ha
    | some b =>
      have hb : key b = key a := by simpa using List.find?_some h
      rw [List.inj_on_of_nodup_map hn (List.mem_of_find?_eq_some h) ha hb]

namespace Registry

def names (r : Registry) : List String := r.vars.map (·.name)

section

variable {r : Registry} {name : String}

theorem get?_index_eq_some_iff {place : Nat} :
    r.index.get? name = some place ↔ ∃ v, r.vars[place]? = some v ∧ v.name = name := by
  rw [r.inStep, List.getElem?_map, Option.map_eq_some_iff]

/-- A name has one place in the index. -/
theorem nodup_names (r : Registry) : r.names.Nodup := by
  rw [List.nodup_iff_getElem?_ne_getElem?]
  intro i j hij hj heq
  obtain ⟨name, hname⟩ : ∃ name, r.names[j]? = some name := ⟨_, List.getElem?_eq_getElem hj⟩
  have hi := (r.inStep name i).2 (heq.trans hname)
  rw [(r.inStep name j).2 hname] at hi
  cases hi
  omega

theorem contains_iff : r.contains name = true ↔ name ∈ r.names := by
  rw [contains, Option.isSome_iff_exists, names, List.mem_iff_getElem?]
  exact exists_congr fun place => r.inStep name place

theorem contains_eq_false_iff : r.contains name = false ↔ name ∉ r.names := by
  rw [← contains_iff, Bool.not_eq_true]

theorem map_val_place? (r : Registry) (name : String) :
    (r.place? name).map Fin.val = r.index.get? name := by
  simp [place?, Option.map_pmap]

theorem find?_eq_bind (r : Registry) (name : String) :
    r.find? name = (r.index.get? name).bind (r.vars[·]?) := by
  rw [← map_val_place?, find?]
  cases r.place? name <;> simp

theorem find?_eq_some_iff {v : Variable} : r.find? name = some v ↔ v ∈ r.vars ∧ v.name = name := by
  rw [find?_eq_bind, Option.bind_eq_some_iff]
  constructor
  · rintro ⟨place, hplace, hv⟩
    obtain ⟨w, hw, hname⟩ := get?_index_eq_some_iff.1 hplace
    obtain rfl := Option.some.inj (hv.symm.trans hw)
    exact ⟨List.mem_of_getElem? hv, hname⟩
  · rintro ⟨hv, hname⟩
    obtain ⟨place, hplace⟩ := List.mem_iff_getElem?.1 hv
    exact ⟨place, get?_index_eq_some_iff.2 ⟨v, hplace, hname⟩, hplace⟩

/-- Variables that are changed in place are found where they were. -/
theorem find?_withVars_map {g : Variable → Variable}
    (h : (r.vars.map g).map (·.name) = r.vars.map (·.name)) (name : String) :
    (r.withVars (r.vars.map g) h).find? name = (r.find? name).map g := by
  rw [find?_eq_bind, find?_eq_bind, withVars]
  cases r.index.get? name <;> simp

/-- The variables determine the index. -/
theorem eq_of_vars_eq {s : Registry} (h : r.vars = s.vars) : r = s := by
  obtain ⟨vars, ⟨get?⟩, hr⟩ := r
  obtain ⟨_, ⟨get?'⟩, hs⟩ := s
  obtain rfl : vars = _ := h
  obtain rfl : get? = get?' := by
    funext name
    ext place
    exact (hr name place).trans (hs name place).symm
  rfl

end

@[simp] theorem vars_empty : ({} : Registry).vars = [] := rfl

@[simp] theorem vars_push {v : Variable} {r : Registry} (fresh : r.contains v.name = false) :
    (r.push v fresh).vars = r.vars ++ [v] := rfl

/-- The variables once an array has been given its capacities. -/
def sized (name : String) (capacities : List Nat) (vs : List Variable) : List Variable :=
  vs.map fun v => if v.name = name then v.sized capacities else v

theorem map_name_sized (name : String) (capacities : List Nat) (vs : List Variable) :
    (sized name capacities vs).map (·.name) = vs.map (·.name) := by
  rw [sized, List.map_map]
  refine List.map_congr_left fun v _ => ?_
  rw [Function.comp_apply]
  split <;> rfl

/-- A name belongs to one variable, so only that one changes. -/
theorem vars_giveCapacities {r : Registry} {name : String} {place : Fin r.vars.length}
    (h : r.place? name = some place) (capacities : List Nat) :
    (r.giveCapacities place capacities).vars = sized name capacities r.vars := by
  have hplace : r.index.get? name = some place.val := by rw [← map_val_place?, h, Option.map_some]
  show r.vars.modify place (.sized capacities) = _
  apply List.ext_getElem?
  intro i
  rw [List.getElem?_modify, sized, List.getElem?_map]
  cases hv : r.vars[i]? with
  | none => rfl
  | some v =>
    have hname : v.name = name ↔ place.val = i := by
      rw [← Option.some_inj (a := place.val), ← hplace, get?_index_eq_some_iff, hv]
      simp
    by_cases hi : place.val = i <;> simp [hname, hi]

/-! ## Companions -/

/-- All companions of an array from the given dimension on, declared or not. -/
def companions (array : String) (d : Nat) (sizes : List (Nat × Nat)) : List Variable :=
  (sizes.zipIdx d).map fun (size, k) => lengthVariable array k size.1 size.2

/-- The companions that are not declared. -/
def missing (r : Registry) (array : String) (d : Nat) (sizes : List (Nat × Nat)) : List Variable :=
  (companions array d sizes).filter (!r.contains ·.name)

theorem map_name_companions (array : String) (d : Nat) (sizes : List (Nat × Nat)) :
    (companions array d sizes).map (·.name) =
      (List.range' d sizes.length).map (lengthName array) := by
  rw [← List.zipIdx_map_snd d sizes, companions, List.map_map, List.map_map]
  rfl

theorem capacities_of_mem_missing {r : Registry} {array : String} {d : Nat}
    {sizes : List (Nat × Nat)} {w : Variable} (hw : w ∈ r.missing array d sizes) :
    w.capacities = none := by
  obtain ⟨_, -, rfl⟩ := List.mem_map.1 (List.mem_of_mem_filter hw)
  rfl

theorem mem_missing_iff {r : Registry} {array : String} {sizes : List (Nat × Nat)} {w : Variable} :
    w ∈ r.missing array 1 sizes ↔ ∃ d size, sizes[d]? = some size ∧
      lengthName array (d + 1) ∉ r.names ∧ w = lengthVariable array (d + 1) size.1 size.2 := by
  rw [missing, List.mem_filter, companions, List.mem_map, Bool.not_eq_true', contains_eq_false_iff]
  constructor
  · rintro ⟨⟨⟨size, k⟩, hmem, rfl⟩, hfresh⟩
    obtain ⟨hk, -, hsize⟩ := List.mem_zipIdx hmem
    obtain ⟨d, rfl⟩ := Nat.exists_eq_add_of_le' hk
    exact ⟨d, size, by simp [hsize], hfresh, rfl⟩
  · rintro ⟨d, size, hsize, hfresh, rfl⟩
    refine ⟨⟨(size, d + 1), List.mem_iff_getElem?.2 ⟨d, ?_⟩, rfl⟩, hfresh⟩
    rw [List.getElem?_zipIdx, hsize, Option.map_some, Nat.add_comm]

theorem declare_eq_push {v : Variable} {r : Registry} (fresh : r.contains v.name = false) :
    r.declare v = .after (.declared v.name) (.ok (r.push v fresh) ()) :=
  dif_neg (by rw [fresh]; exact Bool.false_ne_true)

/-- Companions are told apart by their dimension, so those declared on the way do not matter. -/
theorem declareLengths_eq (array : String) (d : Nat) (sizes : List (Nat × Nat)) (r : Registry) :
    (declareLengths array d sizes r).outcome = .ok () ∧
      (declareLengths array d sizes r).state.vars = r.vars ++ r.missing array d sizes := by
  induction sizes generalizing d r with
  | nil => exact ⟨rfl, by simp [declareLengths, Attempt.ok, missing, companions]⟩
  | cons size sizes ih =>
    have hcompanions : companions array d (size :: sizes) =
        lengthVariable array d size.1 size.2 :: companions array (d + 1) sizes := rfl
    rw [declareLengths, missing, hcompanions, List.filter_cons]
    cases hc : r.contains (lengthName array d) with
    | true => simpa [hc, lengthVariable, missing] using ih (d + 1) r
    | false =>
      have hdeclare := declare_eq_push (v := lengthVariable array d size.1 size.2) hc
      let r' := r.push (lengthVariable array d size.1 size.2) hc
      have hmissing : r'.missing array (d + 1) sizes = r.missing array (d + 1) sizes := by
        refine List.filter_congr fun w hw => ?_
        have hname : w.name ≠ lengthName array d := by
          intro hname
          have hmem := List.mem_map_of_mem (f := (·.name)) hw
          rw [map_name_companions, hname] at hmem
          obtain ⟨k, hk, he⟩ := List.mem_map.1 hmem
          have hdk := (lengthName_inj he).2
          have := List.left_le_of_mem_range' hk
          omega
        have : r'.contains w.name = r.contains w.name := by
          rw [Bool.eq_iff_iff, contains_iff, contains_iff]
          simp [names, r', lengthVariable, hname]
        rw [this]
      obtain ⟨hok, hstate⟩ := ih (d + 1) r'
      rw [hmissing] at hstate
      simp only [Bool.false_eq_true, if_false, hdeclare]
      exact ⟨hok, hstate.trans (by simp [r', hc, lengthVariable, missing])⟩

theorem length_levelLengths (n : Nat) (level : List Expr) : (levelLengths n level).length = n := by
  induction n generalizing level with
  | zero => rfl
  | succ n ih => rw [levelLengths, List.length_cons, ih]

/-- The capacities of an array with the lengths of its initial value. -/
def sizes (v : Variable) (capacities : List Nat) : List (Nat × Nat) :=
  capacities.zip (initialLengths v.initial v.type.dimensions)

theorem length_sizes {v : Variable} {capacities : List Nat}
    (h : capacities.length = v.type.dimensions) :
    (sizes v capacities).length = capacities.length := by
  rw [sizes, List.length_zip, initialLengths, length_levelLengths, h, Nat.min_self]

/-! ## Steps -/

/-- What changes a registry. -/
inductive Step (r r' : Registry) : Prop
  /-- A variable of a new name is added. -/
  | declare (v : Variable) (fresh : v.name ∉ r.names) (plain : v.capacities = none)
      (vars : r'.vars = r.vars ++ [v])
  /-- An array is given its capacities, and the companions that are missing. -/
  | size (v : Variable) (capacities : List Nat) (find : r.find? v.name = some v)
      (array : v.isArray = true) (levels : capacities.length = v.type.dimensions)
      (vars : r'.vars =
        sized v.name capacities r.vars ++ r.missing v.name 1 (sizes v capacities))

/-- How a request for capacities ends. -/
inductive Request (r : Registry) (name : String) (capacities : List Nat) :
    Attempt Registry RegistryError Unit → Prop
  | unknown (find : r.find? name = none) : Request r name capacities (.fail r (.unknown name))
  | notAnArray {v : Variable} (find : r.find? name = some v) (scalar : v.isArray = false) :
      Request r name capacities (.fail r (.notAnArray name))
  | dimensions {v : Variable} (find : r.find? name = some v) (array : v.isArray = true)
      (levels : capacities.length ≠ v.type.dimensions) :
      Request r name capacities
        (.fail r (.dimensionMismatch name v.type.dimensions capacities.length))
  | exceeded {v : Variable} {d length capacity : Nat} (find : r.find? name = some v)
      (array : v.isArray = true) (levels : capacities.length = v.type.dimensions)
      (long : overflow? 1 (sizes v capacities) = some (d, length, capacity)) :
      Request r name capacities (.fail r (.capacityExceeded name d length capacity))
  | given {v : Variable} {x : Attempt Registry RegistryError Unit} (find : r.find? name = some v)
      (array : v.isArray = true) (levels : capacities.length = v.type.dimensions)
      (fits : overflow? 1 (sizes v capacities) = none) (ok : x.outcome = .ok ())
      (vars : x.state.vars =
        sized name capacities r.vars ++ r.missing name 1 (sizes v capacities)) :
      Request r name capacities x

theorem setCapacities_of_find?_none {name : String} {r : Registry} (h : r.find? name = none)
    (capacities : List Nat) : r.setCapacities name capacities = .fail r (.unknown name) := by
  rw [setCapacities, Option.map_eq_none_iff.1 h]

/-- A request in terms of the variable, whatever its place is. -/
theorem setCapacities_of_find? {name : String} {r : Registry} {v : Variable}
    (h : r.find? name = some v) (capacities : List Nat) :
    r.setCapacities name capacities =
      if !v.isArray then .fail r (.notAnArray name)
      else if v.type.dimensions ≠ capacities.length then
        .fail r (.dimensionMismatch name v.type.dimensions capacities.length)
      else
        (overflow? 1 (sizes v capacities)).elim
          (declareLengths name 1 (sizes v capacities)
            (r.withVars (sized name capacities r.vars) (map_name_sized ..)))
          fun x => .fail r (.capacityExceeded name x.1 x.2.1 x.2.2) := by
  obtain ⟨place, hplace, rfl⟩ := Option.map_eq_some_iff.1 h
  have hgive : r.giveCapacities place capacities =
      r.withVars (sized name capacities r.vars) (map_name_sized ..) :=
    eq_of_vars_eq (vars_giveCapacities hplace capacities)
  rw [setCapacities, hplace, ← hgive]
  dsimp only
  rw [← sizes]
  cases overflow? 1 (sizes (r.vars.get place) capacities) <;> rfl

theorem request_setCapacities (name : String) (capacities : List Nat) (r : Registry) :
    r.Request name capacities (r.setCapacities name capacities) := by
  cases hfind : r.find? name with
  | none =>
    rw [setCapacities_of_find?_none hfind]
    exact .unknown hfind
  | some v =>
    rw [setCapacities_of_find? hfind]
    cases harray : v.isArray with
    | false => exact .notAnArray hfind harray
    | true =>
      rw [Bool.not_true, if_neg Bool.false_ne_true]
      by_cases hlevels : capacities.length = v.type.dimensions
      · rw [if_neg (not_not.2 hlevels.symm)]
        cases hover : overflow? 1 (sizes v capacities) with
        | some x => exact .exceeded hfind harray hlevels hover
        | none =>
          -- the index stays, and so do the companions that are missing
          obtain ⟨hok, hvars⟩ := declareLengths_eq name 1 (sizes v capacities)
            (r.withVars (sized name capacities r.vars) (map_name_sized ..))
          exact .given hfind harray hlevels hover hok hvars
      · rw [if_pos (Ne.symm hlevels)]
        exact .dimensions hfind harray hlevels

/-- Capacities are given in one step, or nothing changes. -/
theorem setCapacities_cases (name : String) (capacities : List Nat) (r : Registry) :
    (∃ e, r.setCapacities name capacities = .fail r e) ∨
    ∃ v, r.find? name = some v ∧ v.isArray = true ∧ capacities.length = v.type.dimensions ∧
      (r.setCapacities name capacities).outcome = .ok () ∧
      (r.setCapacities name capacities).state.vars =
        sized name capacities r.vars ++ r.missing name 1 (sizes v capacities) := by
  have hrequest := request_setCapacities name capacities r
  generalize r.setCapacities name capacities = x at hrequest ⊢
  cases hrequest with
  | unknown | notAnArray | dimensions | exceeded => exact .inl ⟨_, rfl⟩
  | given find array levels _ ok vars => exact .inr ⟨_, find, array, levels, ok, vars⟩

/-- What is there after a request: what was there, the array, and companions whose names were
free. -/
theorem mem_setCapacities {name : String} {capacities : List Nat} {r : Registry} {w : Variable}
    (hw : w ∈ (r.setCapacities name capacities).state.vars) :
    w ∈ r.vars ∨ (r.setCapacities name capacities).outcome = .ok () ∧
      ((∃ v ∈ r.vars, v.name = name ∧ w = v.sized capacities) ∨
        ∃ d capacity length, capacities[d]? = some capacity ∧ lengthName name (d + 1) ∉ r.names ∧
          w = lengthVariable name (d + 1) capacity length) := by
  rcases setCapacities_cases name capacities r with ⟨e, h⟩ | ⟨v, hfind, -, -, hok, h⟩
  · rw [h] at hw
    exact .inl hw
  · rw [h, List.mem_append] at hw
    rcases hw with hw | hw
    · obtain ⟨u, hu, rfl⟩ := List.mem_map.1 hw
      by_cases hname : u.name = name
      · exact .inr ⟨hok, .inl ⟨u, hu, hname, if_pos hname⟩⟩
      · rw [if_neg hname]
        exact .inl hu
    · obtain ⟨d, size, hsize, hfresh, rfl⟩ := mem_missing_iff.1 hw
      exact .inr ⟨hok, .inr ⟨d, _, _, (List.getElem?_zip_eq_some.1 hsize).1, hfresh, rfl⟩⟩

theorem declare_cases (v : Variable) (r : Registry) :
    (v.name ∈ r.names ∧ r.declare v = .fail r (.duplicate v.name)) ∨
      ∃ fresh : r.contains v.name = false,
        r.declare v = .after (.declared v.name) (.ok (r.push v fresh) ()) := by
  by_cases h : r.contains v.name = true
  · exact .inl ⟨contains_iff.1 h, dif_pos h⟩
  · have fresh := Bool.eq_false_iff.2 h
    exact .inr ⟨fresh, declare_eq_push fresh⟩

/-- An array is declared first, and then given its capacities. -/
theorem declareArray_cases (name : String) (base : VarType) (capacities : List Nat) (r : Registry) :
    (name ∈ r.names ∧ (r.declareArray name base capacities).outcome = .error (.duplicate name) ∧
        (r.declareArray name base capacities).state = r) ∨
      ∃ fresh : r.contains (arrayVariable name base capacities).name = false,
        (r.declareArray name base capacities).outcome =
          ((r.push _ fresh).setCapacities name capacities).outcome ∧
        (r.declareArray name base capacities).state =
          ((r.push _ fresh).setCapacities name capacities).state := by
  unfold declareArray
  rcases declare_cases (arrayVariable name base capacities) r with ⟨taken, h⟩ | ⟨fresh, h⟩
  · simp only [h]
    exact .inl ⟨taken, rfl, rfl⟩
  · simp only [h]
    exact .inr ⟨fresh, rfl, rfl⟩

/-! ## What steps keep -/

/-- The variables of `r` stand in the same places of `r'`, and only their capacities may differ. -/
def Extends (r r' : Registry) : Prop :=
  ∀ (i : Nat) (v : Variable), r.vars[i]? = some v →
    ∃ capacities, r'.vars[i]? = some { v with capacities }

theorem Extends.refl (r : Registry) : r.Extends r := fun _ v hv => ⟨v.capacities, hv⟩

theorem Extends.trans {r s t : Registry} (h : r.Extends s) (h' : s.Extends t) : r.Extends t := by
  intro i v hv
  obtain ⟨_, hs⟩ := h i v hv
  obtain ⟨capacities, ht⟩ := h' i _ hs
  exact ⟨capacities, ht⟩

theorem Extends.names_subset {r r' : Registry} (h : r.Extends r') : r.names ⊆ r'.names := by
  intro name hname
  obtain ⟨v, hv, rfl⟩ := List.mem_map.1 hname
  obtain ⟨i, hi⟩ := List.mem_iff_getElem?.1 hv
  obtain ⟨capacities, hi'⟩ := h i v hi
  exact List.mem_map.2 ⟨_, List.mem_of_getElem? hi', rfl⟩

/-- An array with capacities has one for each of its levels, and a companion for each of them. -/
def Sound (r : Registry) : Prop :=
  ∀ v ∈ r.vars, ∀ capacities, v.capacities = some capacities →
    v.isArray = true ∧ capacities.length = v.type.dimensions ∧
      ∀ d, 1 ≤ d → d ≤ capacities.length → lengthName v.name d ∈ r.names

theorem sound_empty : Sound {} := fun _ hv => absurd hv List.not_mem_nil

theorem Step.extends {r r' : Registry} (h : Step r r') : r.Extends r' := by
  intro i v hv
  have hi := (List.getElem?_eq_some_iff.1 hv).1
  cases h with
  | declare w fresh plain vars =>
    exact ⟨v.capacities, by rw [vars, List.getElem?_append_left hi, hv]⟩
  | size w capacities find array levels vars =>
    rw [vars, List.getElem?_append_left (by simpa [sized] using hi), sized, List.getElem?_map, hv]
    by_cases hname : v.name = w.name
    · exact ⟨some capacities, by simp [hname, Variable.sized]⟩
    · exact ⟨v.capacities, by simp [hname]⟩

namespace Step

variable {r r' : Registry}

/-- All companions of an array are declared when it is given its capacities. -/
theorem mem_names_size {v : Variable} {capacities : List Nat}
    (levels : capacities.length = v.type.dimensions)
    (vars : r'.vars = sized v.name capacities r.vars ++ r.missing v.name 1 (sizes v capacities))
    {d : Nat} (h1 : 1 ≤ d) (hd : d ≤ capacities.length) : lengthName v.name d ∈ r'.names := by
  rw [Registry.names, vars, List.map_append, map_name_sized, List.mem_append]
  by_cases hc : lengthName v.name d ∈ r.names
  · exact .inl hc
  · right
    have hmem : lengthName v.name d ∈
        (companions v.name 1 (sizes v capacities)).map (·.name) := by
      rw [map_name_companions, length_sizes levels]
      exact List.mem_map_of_mem (List.mem_range'_1.2 ⟨h1, by omega⟩)
    obtain ⟨w, hw, hname⟩ := List.mem_map.1 hmem
    refine List.mem_map.2 ⟨w, List.mem_filter.2 ⟨hw, ?_⟩, hname⟩
    rw [hname, contains_eq_false_iff.2 hc]
    rfl

theorem sound (h : Step r r') (hr : r.Sound) : r'.Sound := by
  have hsub := h.extends.names_subset
  have hkept : ∀ v ∈ r.vars, ∀ capacities, v.capacities = some capacities → v.isArray = true ∧
      capacities.length = v.type.dimensions ∧
      ∀ d, 1 ≤ d → d ≤ capacities.length → lengthName v.name d ∈ r'.names := by
    intro v hv capacities hc
    obtain ⟨harray, hlevels, hnames⟩ := hr v hv capacities hc
    exact ⟨harray, hlevels, fun d h1 hd => hsub (hnames d h1 hd)⟩
  intro v hv capacities hc
  cases h with
  | declare w fresh plain vars =>
    rw [vars] at hv
    rcases List.mem_append.1 hv with hv | hv
    · exact hkept v hv capacities hc
    · obtain rfl := List.mem_singleton.1 hv
      rw [plain] at hc
      cases hc
  | size w given find array levels vars =>
    rw [vars] at hv
    rcases List.mem_append.1 hv with hv | hv
    · obtain ⟨u, hu, rfl⟩ := List.mem_map.1 hv
      by_cases hname : u.name = w.name
      · -- the array itself
        rw [if_pos hname] at hc ⊢
        obtain rfl := Option.some.inj hc
        obtain rfl := Option.some.inj (find.symm.trans (find?_eq_some_iff.2 ⟨hu, hname⟩))
        exact ⟨array, levels, fun d h1 hd => mem_names_size levels vars h1 hd⟩
      · rw [if_neg hname] at hc ⊢
        exact hkept u hu capacities hc
    · rw [capacities_of_mem_missing hv] at hc
      cases hc

end Step

/-! ## Runs -/

/-- A declaration. Capacities are only given to arrays that are declared. -/
inductive Command where
  | declare (v : Variable) (plain : v.capacities = none)
  | declareArray (name : String) (base : VarType) (capacities : List Nat)
  | setCapacities (name : String) (capacities : List Nat)

def Command.run : Command → Registry → Attempt Registry RegistryError Unit
  | .declare v _, r => r.declare v
  | .declareArray name base capacities, r => r.declareArray name base capacities
  | .setCapacities name capacities, r => r.setCapacities name capacities

/-- The registry after some declarations, whether they succeed or fail. -/
def after (r : Registry) (commands : List Command) : Registry :=
  commands.foldl (fun r c => (c.run r).state) r

/-- Any number of steps. -/
abbrev Steps : Registry → Registry → Prop := Relation.ReflTransGen Step

theorem Steps.sound {r r' : Registry} (h : Steps r r') (hr : r.Sound) : r'.Sound := by
  induction h with
  | refl => exact hr
  | tail _ hstep ih => exact hstep.sound ih

theorem Steps.extends {r r' : Registry} (h : Steps r r') : r.Extends r' := by
  induction h with
  | refl => exact .refl r
  | tail _ hstep ih => exact ih.trans hstep.extends

theorem steps_declare {v : Variable} (plain : v.capacities = none) (r : Registry) :
    Steps r (r.declare v).state := by
  rcases declare_cases v r with ⟨-, h⟩ | ⟨fresh, h⟩
  · rw [h]
    exact .refl
  · rw [h]
    exact .single (.declare v (contains_eq_false_iff.1 fresh) plain rfl)

theorem steps_setCapacities (name : String) (capacities : List Nat) (r : Registry) :
    Steps r (r.setCapacities name capacities).state := by
  rcases setCapacities_cases name capacities r with ⟨e, h⟩ | ⟨v, hfind, harray, hlevels, -, h⟩
  · rw [h]
    exact .refl
  · obtain rfl := (find?_eq_some_iff.1 hfind).2
    exact .single (.size v capacities hfind harray hlevels h)

/-- An array whose capacities do not fit stays declared without. -/
theorem steps_declareArray (name : String) (base : VarType) (capacities : List Nat) (r : Registry) :
    Steps r (r.declareArray name base capacities).state := by
  rcases declareArray_cases name base capacities r with ⟨-, -, h⟩ | ⟨fresh, -, h⟩
  · rw [h]
  · rw [h]
    have hdeclare : Step r (r.push _ fresh) :=
      .declare _ (contains_eq_false_iff.1 fresh) rfl (vars_push fresh)
    exact (Relation.ReflTransGen.single hdeclare).trans (steps_setCapacities name capacities _)

theorem steps_run (c : Command) (r : Registry) : Steps r (c.run r).state := by
  cases c with
  | declare v plain => exact steps_declare plain r
  | declareArray name base capacities => exact steps_declareArray name base capacities r
  | setCapacities name capacities => exact steps_setCapacities name capacities r

theorem steps_after (r : Registry) (commands : List Command) : Steps r (r.after commands) := by
  induction commands generalizing r with
  | nil => exact .refl
  | cons c commands ih => exact (steps_run c r).trans (ih _)

/-! ## Registries from files -/

theorem steps_declareAll {vs : List Variable} (plain : ∀ v ∈ vs, v.capacities = none)
    (r : Registry) : Steps r (declareAll vs r).state := by
  induction vs generalizing r with
  | nil => exact .refl
  | cons v vs ih =>
    obtain ⟨hv, hvs⟩ := List.forall_mem_cons.1 plain
    have hfirst := steps_declare hv r
    rw [declareAll]
    unfold Attempt.andThen
    cases (r.declare v).outcome with
    | error e => exact hfirst
    | ok _ => exact hfirst.trans (ih hvs _)

theorem vars_declareAll {vs : List Variable} {r : Registry}
    (h : (declareAll vs r).Succeeds) : (declareAll vs r).state.vars = r.vars ++ vs := by
  induction vs generalizing r with
  | nil => simp [declareAll, Attempt.ok]
  | cons v vs ih =>
    rw [declareAll] at h ⊢
    obtain ⟨_, hv, hvs⟩ := Attempt.succeeds_andThen.1 h
    have hdeclare : (r.declare v).state.vars = r.vars ++ [v] := by
      rcases declare_cases v r with ⟨-, h⟩ | ⟨fresh, h⟩
      · rw [h] at hv
        cases hv
      · rw [h]
        rfl
    rw [(Attempt.andThen_eq_of_ok hv _).2, ih hvs, hdeclare, List.append_assoc,
      List.singleton_append]

theorem succeeds_declareAll {vs : List Variable} {r : Registry}
    (h : ((r.vars ++ vs).map (·.name)).Nodup) : (declareAll vs r).Succeeds := by
  induction vs generalizing r with
  | nil => exact ⟨(), rfl⟩
  | cons v vs ih =>
    have fresh : r.contains v.name = false := by
      rw [contains_eq_false_iff]
      rw [List.map_append, List.map_cons] at h
      exact fun hv => List.disjoint_of_nodup_append h hv List.mem_cons_self
    rw [declareAll, declare_eq_push fresh, Attempt.succeeds_andThen]
    refine ⟨(), rfl, ih ?_⟩
    rwa [Attempt.after, Attempt.ok, vars_push, List.append_assoc, List.singleton_append]

theorem vars_ofList {vs : List Variable} (h : (vs.map (·.name)).Nodup) : (ofList vs).vars = vs :=
  vars_declareAll (succeeds_declareAll h)

/-- The variables of a file are declared one after the other. A file gives no capacities. -/
theorem declares_of_decode {source : Source} {n : Node} {r : Registry}
    (h : (codec.decode source n).outcome = .ok r) :
    (Variable.codec.list.decode source n).outcome = .ok r.vars ∧
      (∀ v ∈ r.vars, v.capacities = none) ∧ (declareAll r.vars {}).state = r := by
  simp only [codec, Report.outcome_bind, Except.bind_eq_ok_iff, Report.outcome_mapError,
    Except.mapError_eq_ok_iff, Attempt.toReport_eq_ok_iff] at h
  obtain ⟨vs, hvs, hdeclare, rfl⟩ := h
  have hvars : (declareAll vs {}).state.vars = vs := (vars_declareAll hdeclare).trans (by simp)
  rw [hvars]
  refine ⟨hvs, fun v hv => ?_, rfl⟩
  obtain ⟨items, -, hitems⟩ := Codec.list_eq_ok hvs
  obtain ⟨i, hi⟩ := List.mem_iff_getElem?.1 hv
  obtain ⟨hi', rfl⟩ := List.getElem?_eq_some_iff.1 hi
  obtain ⟨_, row, -, -, hrow⟩ := Record.obtained_of_decode
    (hitems.get (hitems.length_eq ▸ hi') hi')
  exact congrArg Variable.capacities hrow.symm

theorem steps_decode {source : Source} {n : Node} {r : Registry}
    (h : (codec.decode source n).outcome = .ok r) : Steps {} r := by
  obtain ⟨-, hplain, hstate⟩ := declares_of_decode h
  exact hstate ▸ steps_declareAll hplain {}

/-- A registry that comes from a file or from nothing, and from declarations after that. -/
inductive Grown : Registry → Prop
  | empty : Grown {}
  | decoded {source : Source} {n : Node} {r : Registry}
      (h : (codec.decode source n).outcome = .ok r) : Grown r
  | declared {r : Registry} (c : Command) (h : Grown r) : Grown (c.run r).state

theorem Grown.sound {r : Registry} (h : r.Grown) : r.Sound := by
  induction h with
  | empty => exact sound_empty
  | decoded h => exact (steps_decode h).sound sound_empty
  | declared c _ ih => exact (steps_run c _).sound ih

/-- The index has exactly the declared names, each with the place of its variable. So a name leads
to one variable. Arrays with capacities have one for each level and a companion for each of them. -/
structure Consistent (r : Registry) : Prop where
  names : r.names.Nodup
  index : ∀ name i, r.index.get? name = some i ↔ ∃ v, r.vars[i]? = some v ∧ v.name = name
  find : ∀ name v, r.find? name = some v ↔ v ∈ r.vars ∧ v.name = name
  find_index : ∀ name, r.find? name = (r.index.get? name).bind (r.vars[·]?)
  contains : ∀ name, r.contains name = true ↔ ∃ v, r.find? name = some v
  arrays : ∀ v ∈ r.vars, ∀ capacities, v.capacities = some capacities →
    v.isArray = true ∧ capacities.length = v.type.dimensions ∧
      ∀ d, 1 ≤ d → d ≤ capacities.length → r.contains (lengthName v.name d) = true

theorem contains_iff_find? {r : Registry} {name : String} :
    r.contains name = true ↔ ∃ v, r.find? name = some v := by
  simp only [contains_iff, names, List.mem_map, find?_eq_some_iff]

theorem Sound.consistent {r : Registry} (h : r.Sound) : r.Consistent where
  names := r.nodup_names
  index _ _ := get?_index_eq_some_iff
  find _ _ := find?_eq_some_iff
  find_index := r.find?_eq_bind
  contains _ := contains_iff_find?
  arrays v hv capacities hc := by
    obtain ⟨harray, hlevels, hnames⟩ := h v hv capacities hc
    exact ⟨harray, hlevels, fun d h1 hd => contains_iff.2 (hnames d h1 hd)⟩

theorem Extends.get?_index {r r' : Registry} (h : r.Extends r') {name : String} {i : Nat}
    (hi : r.index.get? name = some i) : r'.index.get? name = some i := by
  obtain ⟨v, hv, hname⟩ := get?_index_eq_some_iff.1 hi
  obtain ⟨capacities, hv'⟩ := h i v hv
  exact get?_index_eq_some_iff.2 ⟨_, hv', hname⟩

end Registry

/-- However a registry came about, its names, its index and its arrays are consistent. What is
declared later changes neither the place of a variable, in the list or in the index, nor anything
else about it, except for its capacities. The names of companions never clash. -/
theorem registry_consistent {r : Registry} (h : r.Grown) :
    r.Consistent ∧
      (∀ commands, r.Extends (r.after commands) ∧
        ∀ name i, r.index.get? name = some i → (r.after commands).index.get? name = some i) ∧
      ∀ a b d e, lengthName a d = lengthName b e → a = b ∧ d = e := by
  refine ⟨h.sound.consistent, fun commands => ?_, fun a b d e => lengthName_inj⟩
  have hextends := (Registry.steps_after r commands).extends
  exact ⟨hextends, fun name i => hextends.get?_index⟩

/-- A file that declares an array under the name of a companion. -/
def rowLengths : Json :=
  .arr [.obj [("name", .str "grid_length_1"),
    ("type", .obj [("kind", .str "array"), ("base", .str "int")])]]

/-- The array in the file takes the place of a companion. Then two declarations fail. -/
def gridCommands : List Registry.Command :=
  [.declareArray "grid" (.basic .int) [3, 4], .declareArray "grid" (.basic .real) [2],
    .setCapacities "grid" [5], .setCapacities "grid_length_1" [2]]

theorem registry_consistent_grid :
    ∃ r, (Registry.codec.ofValue rowLengths).outcome = .ok r ∧ r.Grown ∧ r.Consistent ∧
      r.names = ["grid_length_1"] ∧ r.Extends (r.after gridCommands) ∧
      (r.after gridCommands).Grown ∧ (r.after gridCommands).Consistent ∧
      (r.after gridCommands).names =
        ["grid_length_1", "grid", "grid_length_2", "grid_length_1_length_1"] ∧
      r.index.get? "grid_length_1" = some 0 ∧
      (r.after gridCommands).index.get? "grid_length_1" = some 0 ∧
      (r.after gridCommands).index.get? "grid_length_2" = some 2 := by
  have hread : (Registry.codec.ofValue rowLengths).outcome =
      .ok (.ofList [{ name := "grid_length_1", type := .array (.basic .int) }]) := rfl
  have hfile := Registry.Grown.decoded hread
  have hgrown := (((hfile.declared (.declareArray "grid" (.basic .int) [3, 4])).declared
    (.declareArray "grid" (.basic .real) [2])).declared (.setCapacities "grid" [5])).declared
      (.setCapacities "grid_length_1" [2])
  obtain ⟨hconsistent, hlater, -⟩ := registry_consistent hfile
  obtain ⟨hextends, hindex⟩ := hlater gridCommands
  exact ⟨_, hread, hfile, hconsistent, rfl, hextends, hgrown, (registry_consistent hgrown).1,
    by decide +kernel, rfl, hindex _ _ rfl, by decide +kernel⟩

end AutomataNet
