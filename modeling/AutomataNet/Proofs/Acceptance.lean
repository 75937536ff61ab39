import AutomataNet.Proofs.Capacities
import AutomataNet.Proofs.Locations
/-!
# Accepted statecharts

A statechart from a file is accepted exactly if it is well described (`Chart.WellDescribed`): its
automaton has its name, edges keep to declared locations, and of each array it is known how long it
is at the start, which is not too long. The arrays are given their capacities one after the other,
and each of them adds companions to the registry where the next one looks for its own
(`accept_iff_wellDescribed`).

Still the arrays do not get in each other's way. The name of a companion tells its array, so what
is added for one array is never looked for by another one, not even if an array has the name of a
companion. After each array, the variables are those of the file with some arrays done
(`Registry.sizedVars`), and the next array finds what it finds in the file.
-/

namespace AutomataNet

/-- The same capacity along all dimensions. -/
def Variable.uniform (v : Variable) (capacity : Nat) : List Nat :=
  List.replicate v.type.dimensions capacity

namespace Registry

/-- The array says in the file how long it is at the start, and it fits. -/
structure Described (r : Registry) (capacity : Nat) (v : Variable) : Prop where
  known : v.initial.any (·.isArrayValue) = true ∨
    ∀ d < v.type.dimensions, lengthName v.name (d + 1) ∈ r.names
  fits : ¬ v.Exceeds (v.uniform capacity)

/-! ## Arrays that are done -/

/-- The companions that an array lacks. -/
def lacking (r : Registry) (capacity : Nat) (v : Variable) : List Variable :=
  r.missing v.name 1 (sizes v (v.uniform capacity))

/-- The variables when some of the arrays have their capacities. -/
def sizedVars (r : Registry) (capacity : Nat) (done : List Variable) : List Variable :=
  (r.vars.map fun v =>
    if v.name ∈ done.map (·.name) then { v with capacities := some (v.uniform capacity) } else v) ++
  done.flatMap (r.lacking capacity)

theorem length_uniform (v : Variable) (capacity : Nat) :
    (v.uniform capacity).length = v.type.dimensions := List.length_replicate

section

variable {r : Registry} {capacity : Nat} {done : List Variable} {v w : Variable}

theorem name_of_mem_lacking (hw : w ∈ r.lacking capacity v) :
    w.name ∉ r.names ∧ ∃ d, w.name = lengthName v.name d := by
  obtain ⟨hw, hfresh⟩ := List.mem_filter.1 hw
  refine ⟨contains_eq_false_iff.1 (by simpa using hfresh), ?_⟩
  obtain ⟨p, -, rfl⟩ := List.mem_map.1 hw
  exact ⟨p.2, rfl⟩

theorem map_name_sizedVars : (r.sizedVars capacity done).map (·.name) =
    r.names ++ (done.flatMap (r.lacking capacity)).map (·.name) := by
  rw [sizedVars, List.map_append, List.map_map, names]
  congr 1
  apply List.map_congr_left
  intro v _
  dsimp only [Function.comp]
  split <;> rfl

theorem sizedVars_nil : r.sizedVars capacity [] = r.vars := by
  simp [sizedVars]

theorem mem_sizedVars (hv : v ∈ r.vars) (hnew : v.name ∉ done.map (·.name)) :
    v ∈ r.sizedVars capacity done := by
  refine List.mem_append_left _ (List.mem_map.2 ⟨v, hv, ?_⟩)
  rw [if_neg hnew]

/-- One more array is done. -/
theorem sized_sizedVars (hv : v ∈ r.vars) :
    sized v.name (v.uniform capacity) (r.sizedVars capacity done) ++ r.lacking capacity v =
      r.sizedVars capacity (done ++ [v]) := by
  rw [sized, sizedVars, sizedVars, List.map_append, List.map_map, List.flatMap_append,
    List.flatMap_singleton, ← List.append_assoc]
  congr 2
  · apply List.map_congr_left
    intro u hu
    simp only [Function.comp, Variable.sized, List.map_append, List.map_singleton, List.mem_append,
      List.mem_singleton]
    by_cases hname : u.name = v.name
    · obtain rfl := List.inj_on_of_nodup_map r.nodup_names hu hv hname
      by_cases hdone : u.name ∈ done.map (·.name)
      · simp only [hdone, or_true, if_true]
      · simp only [hdone, or_true, if_true, if_false]
    · by_cases hdone : u.name ∈ done.map (·.name)
      · simp only [hdone, hname, or_false, if_true, if_false]
      · simp only [hdone, hname, or_false, if_false]
  · -- no companion that was added has the name of a variable of the file
    rw [List.map_congr_left (g := id), List.map_id]
    intro w hw
    obtain ⟨u, -, hw⟩ := List.mem_flatMap.1 hw
    refine if_neg fun hname => (name_of_mem_lacking hw).1 ?_
    exact hname ▸ List.mem_map_of_mem hv

end

/-! ## Registries where arrays are done -/

section

variable {r s : Registry} {capacity : Nat} {done : List Variable} {v w : Variable}
  (hs : s.vars = r.sizedVars capacity done)

include hs

theorem names_of_sized : s.names = r.names ++ (done.flatMap (r.lacking capacity)).map (·.name) := by
  rw [names, hs, map_name_sizedVars]

/-- What is added for other arrays is not named like a companion of this one. -/
theorem lengthName_mem_iff (hnew : v.name ∉ done.map (·.name)) (d : Nat) :
    lengthName v.name d ∈ s.names ↔ lengthName v.name d ∈ r.names := by
  rw [names_of_sized hs, List.mem_append]
  refine or_iff_left fun hadded => ?_
  obtain ⟨w, hw, hname⟩ := List.mem_map.1 hadded
  obtain ⟨u, hu, hw⟩ := List.mem_flatMap.1 hw
  obtain ⟨-, e, he⟩ := name_of_mem_lacking hw
  obtain ⟨hsame, -⟩ := lengthName_inj (he.symm.trans hname)
  exact hnew (List.mem_map.2 ⟨u, hu, hsame⟩)

theorem missing_of_sized (hnew : v.name ∉ done.map (·.name)) (d : Nat)
    (sizes : List (Nat × Nat)) : s.missing v.name d sizes = r.missing v.name d sizes := by
  refine List.filter_congr fun w hw => ?_
  obtain ⟨p, -, rfl⟩ := List.mem_map.1 hw
  congr 1
  rw [Bool.eq_iff_iff, contains_iff, contains_iff]
  exact lengthName_mem_iff hs hnew p.2

/-- Each array that is done has its companions. -/
theorem lengthName_mem_of_done (hv : v ∈ done) {d : Nat} (hd : d < v.type.dimensions) :
    lengthName v.name (d + 1) ∈ s.names := by
  rw [names_of_sized hs, List.mem_append]
  by_cases hold : lengthName v.name (d + 1) ∈ r.names
  · exact .inl hold
  · have hsize : d < (sizes v (v.uniform capacity)).length := by
      rwa [length_sizes (length_uniform v capacity), length_uniform]
    have hlacking : lengthVariable v.name (d + 1) _ _ ∈ r.lacking capacity v :=
      mem_missing_iff.2 ⟨d, _, List.getElem?_eq_getElem hsize, hold, rfl⟩
    exact .inr (List.mem_map_of_mem (List.mem_flatMap.2 ⟨v, hv, hlacking⟩))

/-- The next array that is given its capacities is done then. -/
theorem vars_setCapacities_of_sized (hv : v ∈ r.vars) (hnew : v.name ∉ done.map (·.name))
    (hok : (s.setCapacities v.name (v.uniform capacity)).outcome = .ok ()) :
    (s.setCapacities v.name (v.uniform capacity)).state.vars =
      r.sizedVars capacity (done ++ [v]) := by
  obtain ⟨u, hu, hname, -, -, -, hvars⟩ := given_of_ok hok
  obtain rfl := List.inj_on_of_nodup_map s.nodup_names hu (hs ▸ mem_sizedVars hv hnew) hname
  rw [hvars, missing_of_sized hs hnew, hs]
  exact sized_sizedVars hv

end

/-! ## One array after the other -/

section

variable {r : Registry} {capacity : Nat} {v : Variable}

theorem hasLengths_iff : r.hasLengths v = true ↔
    ∀ d < v.type.dimensions, lengthName v.name (d + 1) ∈ r.names := by
  rw [hasLengths, List.all_eq_true]
  constructor
  · intro h d hd
    exact contains_iff.1 (h (d + 1) (List.mem_range'_1.2 ⟨by omega, by omega⟩))
  · intro h d hd
    obtain ⟨h1, hd⟩ := List.mem_range'_1.1 hd
    obtain ⟨d, rfl⟩ := Nat.exists_eq_add_of_le' h1
    exact contains_iff.2 (h d (by omega))

/-- The array is not refused for a length that is not known. -/
theorem known_iff : (!v.initial.any (·.isArrayValue) && !r.hasLengths v) = false ↔
    v.initial.any (·.isArrayValue) = true ∨
      ∀ d < v.type.dimensions, lengthName v.name (d + 1) ∈ r.names := by
  rw [← hasLengths_iff, Bool.and_eq_false_iff, Bool.not_eq_false', Bool.not_eq_false']

/-- Whatever arrays are done, the others are judged by what is in the file. -/
theorem sizeArrays_of_sized {s : Registry} {done vs : List Variable}
    (hs : s.vars = r.sizedVars capacity done) (hvs : ∀ v ∈ vs, v ∈ r.vars ∧ v.isArray = true)
    (hnames : ((done ++ vs).map (·.name)).Nodup) :
    ((s.sizeArrays capacity vs).Succeeds ↔ ∀ v ∈ vs, r.Described capacity v) ∧
      ((s.sizeArrays capacity vs).Succeeds →
        (s.sizeArrays capacity vs).state.vars = r.sizedVars capacity (done ++ vs)) := by
  induction vs generalizing s done with
  | nil =>
    rw [List.append_nil]
    exact ⟨iff_of_true ⟨(), rfl⟩ (List.forall_mem_nil _), fun _ => hs⟩
  | cons v vs ih =>
    obtain ⟨⟨hv, harray⟩, hrest⟩ := List.forall_mem_cons.1 hvs
    have hnew : v.name ∉ done.map (·.name) := by
      rw [List.map_append, List.map_cons] at hnames
      exact fun hdone => List.disjoint_of_nodup_append hnames hdone List.mem_cons_self
    have hlengths : s.hasLengths v = r.hasLengths v := by
      rw [Bool.eq_iff_iff, hasLengths_iff, hasLengths_iff]
      simp only [lengthName_mem_iff hs hnew]
    have hmem : v ∈ s.vars := hs ▸ mem_sizedVars hv hnew
    have hfits := setCapacities_ok_iff hmem harray (length_uniform v capacity)
    rw [sizeArrays, hlengths, List.forall_mem_cons]
    cases hfind : (!v.initial.any (·.isArrayValue) && !r.hasLengths v) with
    | true =>
      have hundescribed : ¬ r.Described capacity v := by
        intro hdescribed
        rw [known_iff.2 hdescribed.known] at hfind
        cases hfind
      have hfail : ¬ (Attempt.fail s (.unsizedArray v.name) :
          Attempt Registry ChartProblem Unit).Succeeds := by
        rintro ⟨_, h⟩
        cases h
      rw [if_pos rfl]
      exact ⟨iff_of_false hfail fun h => hundescribed h.1, fun h => absurd h hfail⟩
    | false =>
      have hdescribed : r.Described capacity v ↔ ¬ v.Exceeds (v.uniform capacity) :=
        ⟨fun h => h.fits, fun h => ⟨known_iff.1 hfind, h⟩⟩
      rw [if_neg Bool.false_ne_true, hdescribed, ← hfits, ← Variable.uniform]
      -- the next array is given its capacities, and the others are judged after that
      generalize hx : Attempt.after (.sizedArray v.name capacity v.type.dimensions)
        ((s.setCapacities v.name (v.uniform capacity)).mapError ChartProblem.array) = x
      have hstate : x.state = (s.setCapacities v.name (v.uniform capacity)).state := hx ▸ rfl
      have hiff (u : Unit) : x.outcome = .ok u ↔
          (s.setCapacities v.name (v.uniform capacity)).outcome = .ok () := by
        rw [← hx]
        exact Except.mapError_eq_ok_iff
      have happend : done ++ [v] ++ vs = done ++ v :: vs := (List.append_cons ..).symm
      have hnext (hok) := ih (hstate ▸ vars_setCapacities_of_sized hs hv hnew hok) hrest
        (happend ▸ hnames)
      rw [happend] at hnext
      refine ⟨Attempt.succeeds_andThen.trans ⟨?_, ?_⟩, fun h => ?_⟩
      · rintro ⟨u, hok, hrun⟩
        exact ⟨(hiff u).1 hok, (hnext ((hiff u).1 hok)).1.1 hrun⟩
      · rintro ⟨hok, hall⟩
        exact ⟨(), (hiff ()).2 hok, (hnext hok).1.2 hall⟩
      · obtain ⟨u, hok, hrun⟩ := Attempt.succeeds_andThen.1 h
        rw [(Attempt.andThen_eq_of_ok hok _).2]
        exact (hnext ((hiff u).1 hok)).2 hrun

/-! ## All arrays of a file -/

/-- The registry is as one from a file. -/
def Plain (r : Registry) : Prop := ∀ v ∈ r.vars, v.capacities = none

theorem sizeArrays_file (r : Registry) (capacity : Nat) :
    ((r.sizeArrays capacity (r.vars.filter (·.isArray))).Succeeds ↔
      ∀ v ∈ r.vars, v.isArray = true → r.Described capacity v) ∧
    ((r.sizeArrays capacity (r.vars.filter (·.isArray))).Succeeds →
      (r.sizeArrays capacity (r.vars.filter (·.isArray))).state.vars =
        r.sizedVars capacity (r.vars.filter (·.isArray))) := by
  have hnone : r.vars = r.sizedVars capacity [] := sizedVars_nil.symm
  have hrun := sizeArrays_of_sized hnone (fun v hv => List.mem_filter.1 hv)
    (r.nodup_names.sublist (List.filter_sublist.map _))
  simpa only [List.mem_filter, and_imp, List.nil_append] using hrun

/-- All arrays of the file are given their capacities, and what they lack is added array by
array. -/
theorem sizedVars_arrays :
    r.sizedVars capacity (r.vars.filter (·.isArray)) =
      (r.vars.map fun v =>
        if v.isArray then { v with capacities := some (v.uniform capacity) } else v) ++
      ((r.vars.filter (·.isArray)).map (r.lacking capacity)).flatten := by
  rw [sizedVars, List.flatMap_def]
  congr 1
  apply List.map_congr_left
  intro v hv
  have harray : v.name ∈ (r.vars.filter (·.isArray)).map (·.name) ↔ v.isArray = true := by
    constructor
    · intro hname
      obtain ⟨u, hu, hname⟩ := List.mem_map.1 hname
      obtain ⟨hu, harray⟩ := List.mem_filter.1 hu
      rwa [← List.inj_on_of_nodup_map r.nodup_names hu hv hname]
    · intro harray
      exact List.mem_map_of_mem (List.mem_filter.2 ⟨hv, harray⟩)
  simp only [harray]

theorem isArray_of_mem_lacking {w : Variable} (hw : w ∈ r.lacking capacity v) :
    w.isArray = false := by
  obtain ⟨p, -, rfl⟩ := List.mem_map.1 (List.mem_of_mem_filter hw)
  rfl

theorem companions_declared {s : Registry}
    (hs : s.vars = r.sizedVars capacity (r.vars.filter (·.isArray))) (hv : v ∈ s.vars)
    (harray : v.isArray = true) {d : Nat} (hd : d < v.type.dimensions) :
    lengthName v.name (d + 1) ∈ s.names := by
  rw [hs, sizedVars_arrays, List.mem_append] at hv
  rcases hv with hv | hv
  · obtain ⟨u, hu, rfl⟩ := List.mem_map.1 hv
    have hsame : ∀ w : Variable, w = (if u.isArray then
        { u with capacities := some (u.uniform capacity) } else u) → w.name = u.name ∧
          w.type = u.type := by
      rintro w rfl
      split <;> exact ⟨rfl, rfl⟩
    obtain ⟨hname, htype⟩ := hsame _ rfl
    rw [Variable.isArray, htype] at harray
    rw [htype] at hd
    rw [hname]
    exact lengthName_mem_of_done hs (List.mem_filter.2 ⟨hu, harray⟩) hd
  · -- what is added is no array
    obtain ⟨added, hadded, hv⟩ := List.mem_flatten.1 hv
    obtain ⟨u, -, rfl⟩ := List.mem_map.1 hadded
    rw [isArray_of_mem_lacking hv] at harray
    cases harray

theorem Plain.of_decode {source : Source} {n : Node} (h : (codec.decode source n).outcome = .ok r) :
    r.Plain := (declares_of_decode h).2.1

end

end Registry

/-! ## Statecharts -/

theorem Automaton.plain_of_decode {source : Source} {n : Node} {a : Automaton}
    (h : (codec.decode source n).outcome = .ok a) : a.locals.Plain := by
  obtain ⟨nodes, row, -, ⟨-, hlocals, -⟩, rfl⟩ := Record.obtained_of_decode h
  rcases hlocals with ⟨m, -, hm⟩ | habsent
  · exact .of_decode hm
  · have hempty : (record.ofRow row).locals = {} := (Option.some.inj habsent).symm
    rw [hempty]
    exact List.forall_mem_nil _

namespace Chart

theorem plain_of_ofText {locator text : String} {c : Chart}
    (h : (ofText locator text).outcome = .ok c) : c.automaton.locals.Plain := by
  rw [ofText, Report.outcome_map] at h
  obtain ⟨f, hf, rfl⟩ := Except.map_eq_ok_iff.1 h
  obtain ⟨nodes, row, -, ⟨-, -, hautomaton, -⟩, rfl⟩ :=
    Record.obtained_of_decode (Codec.decode_of_ofText hf)
  rcases hautomaton with ⟨m, -, hm⟩ | habsent
  · exact Automaton.plain_of_decode hm
  · cases habsent

/-- The automaton has the name of the statechart, its edges keep to declared locations, and of each
array the length at the start is known and within the capacity. -/
structure WellDescribed (c : Chart) (capacity : Nat) : Prop where
  named : c.automaton.name = c.name
  closed : c.automaton.Closed
  arrays : ∀ v ∈ c.automaton.locals.vars, v.isArray = true →
    c.automaton.locals.Described capacity v

variable {c : Chart} {capacity : Nat} {events : EventTable} {a : Automaton}

theorem accept_eq_ok_iff :
    (c.accept capacity events).outcome = .ok a ↔ (c.check capacity).outcome = .ok a := by
  refine ⟨check_of_accept, fun h => ?_⟩
  rcases c.accept_cases capacity events with ⟨b, hcheck, hok, -⟩ | ⟨p, hcheck, -, -⟩
  · obtain rfl := Except.ok.inj (hcheck.symm.trans h)
    exact hok
  · rw [hcheck] at h
    cases h

section

variable (hplain : c.automaton.locals.Plain)

include hplain

theorem unsizedArrays_eq :
    c.automaton.unsizedArrays = c.automaton.locals.vars.filter (·.isArray) := by
  refine List.filter_congr fun v hv => ?_
  rw [hplain v hv, Option.isNone_none, Bool.and_true]

theorem exists_accept_iff :
    (∃ a, (c.accept capacity events).outcome = .ok a) ↔ c.WellDescribed capacity := by
  have harrays := (c.automaton.locals.sizeArrays_file capacity).1
  simp only [accept_eq_ok_iff, check_eq_ok_iff, unsizedArrays_eq hplain,
    Attempt.toReport_eq_ok_iff]
  constructor
  · rintro ⟨_, hname, hclosed, _, ⟨hsized, -⟩, -⟩
    exact ⟨hname, hclosed, harrays.1 hsized⟩
  · rintro ⟨hname, hclosed, hdescribed⟩
    exact ⟨_, hname, hclosed, _, ⟨harrays.2 hdescribed, rfl⟩, rfl⟩

/-- Nothing but the variables is changed. -/
theorem locals_of_accept (h : (c.accept capacity events).outcome = .ok a) :
    a = { c.automaton with locals := a.locals } ∧
      a.locals.vars = c.automaton.locals.sizedVars capacity
        (c.automaton.locals.vars.filter (·.isArray)) := by
  rw [accept_eq_ok_iff, check_eq_ok_iff, unsizedArrays_eq hplain] at h
  obtain ⟨-, -, locals, hsized, rfl⟩ := h
  obtain ⟨hok, rfl⟩ := Attempt.toReport_eq_ok_iff.1 hsized
  exact ⟨rfl, (c.automaton.locals.sizeArrays_file capacity).2 hok⟩

end

/-- The statechart with these variables. -/
def withLocals (c : Chart) (vars : List Variable) : Chart :=
  { c with automaton := { c.automaton with locals := .ofList vars } }

/-- The order of variables does not matter. -/
theorem exists_accept_withLocals_iff (hplain : c.automaton.locals.Plain) {vars : List Variable}
    (h : vars.Perm c.automaton.locals.vars) :
    (∃ a, ((c.withLocals vars).accept capacity events).outcome = .ok a) ↔
      ∃ a, (c.accept capacity events).outcome = .ok a := by
  have hvars : (c.withLocals vars).automaton.locals.vars = vars :=
    Registry.vars_ofList ((h.map _).nodup_iff.2 c.automaton.locals.nodup_names)
  rw [← hvars] at h
  have hnames (name : String) :
      name ∈ (c.withLocals vars).automaton.locals.names ↔ name ∈ c.automaton.locals.names :=
    (h.map _).mem_iff
  have hplain' : (c.withLocals vars).automaton.locals.Plain := fun v hv =>
    hplain v (h.mem_iff.1 hv)
  have hdescribed (v : Variable) : (c.withLocals vars).automaton.locals.Described capacity v ↔
      c.automaton.locals.Described capacity v := by
    constructor
    · rintro ⟨hknown, hfits⟩
      exact ⟨by simpa only [hnames] using hknown, hfits⟩
    · rintro ⟨hknown, hfits⟩
      exact ⟨by simpa only [hnames] using hknown, hfits⟩
  rw [exists_accept_iff hplain', exists_accept_iff hplain]
  constructor
  · rintro ⟨hname, hclosed, harrays⟩
    exact ⟨hname, hclosed, fun v hv harray =>
      (hdescribed v).1 (harrays v (h.mem_iff.2 hv) harray)⟩
  · rintro ⟨hname, hclosed, harrays⟩
    exact ⟨hname, hclosed, fun v hv harray =>
      (hdescribed v).2 (harrays v (h.mem_iff.1 hv) harray)⟩

end Chart

/-- A statechart from a file is accepted if and only if it is well described. The automaton is then
that of the file, with capacities for its arrays and with the companions that are not in the file,
array by array, after the other variables; all companions are declared. It does not matter in which
order the variables are declared. -/
theorem accept_iff_wellDescribed {locator text : String} {c : Chart}
    (h : (Chart.ofText locator text).outcome = .ok c) (capacity : Nat) (events : EventTable) :
    ((∃ a, (c.accept capacity events).outcome = .ok a) ↔ c.WellDescribed capacity) ∧
    (∀ a, (c.accept capacity events).outcome = .ok a →
      (∃ added,
        List.Forall₂ (fun v => c.automaton.locals.NewCompanions v (v.uniform capacity))
          (c.automaton.locals.vars.filter (·.isArray)) added ∧
        a = { c.automaton with locals := a.locals } ∧
        a.locals.vars = (c.automaton.locals.vars.map fun v =>
          if v.isArray then { v with capacities := some (v.uniform capacity) } else v) ++
            added.flatten) ∧
      ∀ v ∈ a.locals.vars, v.isArray = true → ∀ d < v.type.dimensions,
        lengthName v.name (d + 1) ∈ a.locals.names) ∧
    ∀ vars, vars.Perm c.automaton.locals.vars →
      ((∃ a, ((c.withLocals vars).accept capacity events).outcome = .ok a) ↔
        ∃ a, (c.accept capacity events).outcome = .ok a) := by
  have hplain := Chart.plain_of_ofText h
  refine ⟨Chart.exists_accept_iff hplain, fun a ha => ?_, fun vars hperm =>
    Chart.exists_accept_withLocals_iff hplain hperm⟩
  obtain ⟨hsame, hvars⟩ := Chart.locals_of_accept hplain ha
  refine ⟨⟨_, ?_, hsame, hvars.trans Registry.sizedVars_arrays⟩, fun v hv harray d hd =>
    Registry.companions_declared hvars hv harray hd⟩
  have hdescribed := (Chart.exists_accept_iff hplain).1 ⟨a, ha⟩
  rw [List.forall₂_map_right_iff, List.forall₂_same]
  intro v hv
  obtain ⟨hv, harray⟩ := List.mem_filter.1 hv
  exact Registry.newCompanions_missing (Registry.length_uniform v capacity)
    (hdescribed.arrays v hv harray).fits

/-- A queue that takes an array for its length, which lacks a companion in turn. -/
def queueText : String :=
  "\x7b\"name\":\"queue\",\"automaton\":\x7b\"name\":\"queue\",\"variables\":[" ++
  "\x7b\"name\":\"jobs\",\"type\":\x7b\"kind\":\"array\",\"base\":\"int\"\x7d\x7d," ++
  "\x7b\"name\":\"jobs_length_1\",\"type\":\x7b\"kind\":\"array\",\"base\":\"int\"\x7d," ++
  "\"initial-value\":\x7b\"op\":\"av\",\"elements\":[1,2]\x7d\x7d]," ++
  "\"locations\":[],\"initial-locations\":[]\x7d\x7d"

/-- The variables of the queue when it is accepted. -/
def acceptedQueue (capacity : Nat) : Option (List String) :=
  (Chart.ofText "queue.json" queueText).outcome.toOption.bind fun c =>
    (c.accept capacity {}).outcome.toOption.map (·.locals.names)

theorem acceptedQueue_eq :
    acceptedQueue 2 = some ["jobs", "jobs_length_1", "jobs_length_1_length_1"] ∧
      acceptedQueue 1 = none := by
  delta acceptedQueue queueText
  simp only [Chart.ofText, Codec.ofText, Node.ofText, String.toList_append, String.reduceToList]
  decide +kernel

/-- The queue is accepted in either order of its arrays, but not with room for one job only. -/
theorem accept_iff_wellDescribed_queue :
    ∃ c a, (Chart.ofText "queue.json" queueText).outcome = .ok c ∧
      (c.accept 2 {}).outcome = .ok a ∧
      a.locals.names = ["jobs", "jobs_length_1", "jobs_length_1_length_1"] ∧
      c.WellDescribed 2 ∧ ¬ c.WellDescribed 1 ∧
      ∃ b, ((c.withLocals c.automaton.locals.vars.reverse).accept 2 {}).outcome = .ok b := by
  obtain ⟨haccepted, hrefused⟩ := acceptedQueue_eq
  simp only [acceptedQueue, Option.bind_eq_some_iff, Option.map_eq_some_iff,
    Except.toOption_eq_some_iff] at haccepted
  obtain ⟨c, hc, a, ha, hnames⟩ := haccepted
  obtain ⟨hiff, -, horder⟩ := accept_iff_wellDescribed hc 2 {}
  refine ⟨c, a, hc, ha, hnames, hiff.1 ⟨a, ha⟩, fun hsmall => ?_,
    (horder _ (List.reverse_perm _)).2 ⟨a, ha⟩⟩
  obtain ⟨b, hb⟩ := (accept_iff_wellDescribed hc 1 {}).1.2 hsmall
  rw [acceptedQueue, Except.toOption_eq_some_iff.2 hc, Option.bind_some,
    Except.toOption_eq_some_iff.2 hb] at hrefused
  cases hrefused

end AutomataNet
