import AutomataNet.Proofs.Declarations
/-!
# Types of companions

A companion that a registry declares on its own is an integer from 0 to the capacity of the array.
It is declared only where its name is free. Otherwise the variable of this name is kept as it is:
one that was declared on its own or as an array, or a companion that is left over from capacities
that the same array was given before (`companion_types`).
-/

namespace AutomataNet

namespace Registry

theorem toInt_saturated (n : Nat) : (saturated n).toInt = min (n : Int) (2 ^ 63 - 1) := by
  have hmax : Int64.maxValue.toInt = 2 ^ 63 - 1 := by decide
  have hsize : Int64.size = 2 ^ 64 := rfl
  have hn := Int.natCast_nonneg n
  rw [saturated, hmax, Int64.toInt_ofInt, hsize]
  apply Int.bmod_eq_of_le <;> omega

/-- What is declared stays, and is found under its name. -/
theorem Extends.find?_of_mem {r r' : Registry} (h : r.Extends r') {v : Variable}
    (hv : v ∈ r.vars) : ∃ capacities, r'.find? v.name = some { v with capacities } := by
  obtain ⟨i, hi⟩ := List.mem_iff_getElem?.1 hv
  obtain ⟨capacities, hi'⟩ := h i v hi
  exact ⟨capacities, find?_eq_some_iff.2 ⟨List.mem_of_getElem? hi', rfl⟩⟩

/-! ## One declaration -/

/-- The declaration gives capacities to an array. -/
inductive Command.Gives (name : String) (capacities : List Nat) : Command → Prop
  | declareArray (base : VarType) : Gives name capacities (.declareArray name base capacities)
  | setCapacities : Gives name capacities (.setCapacities name capacities)

/-- The variable that a declaration names. -/
def Command.variable? : Command → Option Variable
  | .declare v _ => some v
  | .declareArray name base capacities => some (arrayVariable name base capacities)
  | .setCapacities .. => none

theorem Command.capacities_variable? {c : Command} {v : Variable} (h : c.variable? = some v) :
    v.capacities = none := by
  cases c with
  | declare _ plain =>
    cases h
    exact plain
  | declareArray =>
    cases h
    rfl
  | setCapacities => cases h

/-- What a declaration leaves in a registry: what was there, what it names, an array with the
capacities that it gives, and the companions whose names were free. -/
inductive Command.Leaves (c : Command) (r : Registry) : Variable → Prop
  | kept {v : Variable} (old : v ∈ r.vars) : Leaves c r v
  | declared {v : Variable} (names : c.variable? = some v) (fresh : v.name ∉ r.names) :
      Leaves c r v
  | sized {v : Variable} {capacities : List Nat} (left : Leaves c r v)
      (gives : c.Gives v.name capacities) (ok : (c.run r).outcome = .ok ()) :
      Leaves c r (v.sized capacities)
  | companion {name : String} {capacities : List Nat} {d capacity length : Nat}
      (gives : c.Gives name capacities) (ok : (c.run r).outcome = .ok ())
      (dimension : capacities[d]? = some capacity) (fresh : lengthName name (d + 1) ∉ r.names) :
      Leaves c r (lengthVariable name (d + 1) capacity length)

theorem leaves_of_mem {c : Command} {r : Registry} {w : Variable}
    (hw : w ∈ (c.run r).state.vars) : c.Leaves r w := by
  cases c with
  | declare v plain =>
    rcases declare_cases v r with ⟨-, h⟩ | ⟨fresh, h⟩
    · rw [Command.run, h] at hw
      exact .kept hw
    · rw [Command.run, h] at hw
      rcases List.mem_append.1 hw with hw | hw
      · exact .kept hw
      · obtain rfl := List.mem_singleton.1 hw
        exact .declared rfl (contains_eq_false_iff.1 fresh)
  | setCapacities name capacities =>
    rcases mem_setCapacities hw with
      hw | ⟨hok, ⟨v, hv, rfl, rfl⟩ | ⟨d, capacity, length, hd, hf, rfl⟩⟩
    · exact .kept hw
    · exact .sized (.kept hv) .setCapacities hok
    · exact .companion .setCapacities hok hd hf
  | declareArray name base capacities =>
    rcases declareArray_cases name base capacities r with ⟨-, -, h⟩ | ⟨fresh, ho, hs⟩
    · rw [Command.run, h] at hw
      exact .kept hw
    · -- the array is there when it is given its capacities
      have hpush : ∀ v ∈ (r.push _ fresh).vars,
          (Command.declareArray name base capacities).Leaves r v := by
        intro v hv
        rcases List.mem_append.1 hv with hv | hv
        · exact .kept hv
        · obtain rfl := List.mem_singleton.1 hv
          exact .declared rfl (contains_eq_false_iff.1 fresh)
      rw [Command.run, hs] at hw
      rcases mem_setCapacities hw with
        hw | ⟨hok, ⟨v, hv, rfl, rfl⟩ | ⟨d, capacity, length, hd, hf, rfl⟩⟩
      · exact hpush w hw
      · exact .sized (hpush v hv) (.declareArray base) (ho.trans hok)
      · refine .companion (.declareArray base) (ho.trans hok) hd fun hmem => hf ?_
        rw [names, vars_push, List.map_append]
        exact List.mem_append_left _ hmem

/-- Capacities are new where they are given by the declaration. -/
theorem Command.Leaves.gives {c : Command} {r : Registry} {v : Variable} {capacities : List Nat}
    (h : c.Leaves r v) (hc : v.capacities = some capacities)
    (hnew : ∀ u ∈ r.vars, u.name = v.name → u.capacities ≠ some capacities) :
    c.Gives v.name capacities ∧ (c.run r).outcome = .ok () := by
  cases h with
  | kept old => exact absurd hc (hnew v old rfl)
  | declared names =>
    rw [c.capacities_variable? names] at hc
    cases hc
  | sized _ gives ok =>
    obtain rfl := Option.some.inj hc
    exact ⟨gives, ok⟩
  | companion => cases hc

theorem gives_setCapacities {name : String} {capacities : List Nat} {r : Registry}
    (hok : (r.setCapacities name capacities).outcome = .ok ()) {d capacity : Nat}
    (hd : capacities[d]? = some capacity) (hfresh : lengthName name (d + 1) ∉ r.names) :
    ∃ length, lengthVariable name (d + 1) capacity length ∈
      (r.setCapacities name capacities).state.vars := by
  rcases setCapacities_cases name capacities r with ⟨e, h⟩ | ⟨v, hfind, -, hlevels, -, h⟩
  · rw [h] at hok
    cases hok
  · have hlt : d < (sizes v capacities).length := by
      rw [length_sizes hlevels]
      exact (List.getElem?_eq_some_iff.1 hd).1
    have hsize := List.getElem?_eq_getElem hlt
    have hcapacity := Option.some.inj ((List.getElem?_zip_eq_some.1 hsize).1.symm.trans hd)
    refine ⟨(sizes v capacities)[d].2, ?_⟩
    rw [h, List.mem_append]
    exact .inr (mem_missing_iff.2 ⟨d, _, hsize, hfresh, by rw [hcapacity]⟩)

/-- A declaration that gives capacities also declares the companions whose names are free. -/
theorem Command.Gives.companion {name : String} {capacities : List Nat} {c : Command}
    (hc : c.Gives name capacities) {r : Registry} (hok : (c.run r).outcome = .ok ())
    {d capacity : Nat} (hd : capacities[d]? = some capacity)
    (hfresh : lengthName name (d + 1) ∉ r.names) :
    ∃ length, lengthVariable name (d + 1) capacity length ∈ (c.run r).state.vars := by
  cases hc with
  | setCapacities => exact gives_setCapacities hok hd hfresh
  | declareArray base =>
    rcases declareArray_cases name base capacities r with ⟨-, h, -⟩ | ⟨fresh, ho, hs⟩
    · rw [Command.run, h] at hok
      cases hok
    · rw [Command.run] at hok ⊢
      rw [hs]
      refine gives_setCapacities (ho ▸ hok) hd fun hmem => ?_
      -- the array itself does not take the name of its companion
      rw [names, vars_push, List.map_append] at hmem
      rcases List.mem_append.1 hmem with hold | hnew
      · exact hfresh hold
      · exact lengthName_ne name (d + 1) (List.mem_singleton.1 hnew)

/-- A variable that a declaration names is there afterwards, if its name was free. -/
theorem Command.find?_of_variable? {c : Command} {v : Variable} (hc : c.variable? = some v)
    {r : Registry} (hfresh : v.name ∉ r.names) :
    ∃ capacities, (c.run r).state.find? v.name = some { v with capacities } := by
  have hpush (fresh : r.contains v.name = false) {r' : Registry} (h : Steps (r.push v fresh) r') :
      ∃ capacities, r'.find? v.name = some { v with capacities } :=
    h.extends.find?_of_mem (List.mem_append_right _ (List.mem_singleton_self v))
  have fresh := contains_eq_false_iff.2 hfresh
  cases c with
  | declare _ plain =>
    cases hc
    rw [Command.run, declare_eq_push fresh]
    exact hpush fresh .refl
  | declareArray name base capacities =>
    cases hc
    rcases declareArray_cases name base capacities r with ⟨taken, -⟩ | ⟨_, -, hs⟩
    · exact absurd taken hfresh
    · rw [Command.run, hs]
      exact hpush fresh (steps_setCapacities ..)
  | setCapacities => cases hc

/-! ## Runs -/

theorem after_append (r : Registry) (before later : List Command) :
    r.after (before ++ later) = (r.after before).after later := List.foldl_append ..

/-- In the run, the array is given the capacities right after the declarations `before`. -/
def GivenAfter (commands before : List Command) (name : String) (capacities : List Nat) : Prop :=
  ∃ c later, commands = before ++ c :: later ∧ c.Gives name capacities ∧
    (c.run (after {} before)).outcome = .ok ()

/-- The run declares the variable, on its own or as an array, and its name is free. -/
def Declares (commands : List Command) (v : Variable) : Prop :=
  ∃ before c later, commands = before ++ c :: later ∧ c.variable? = some v ∧
    v.name ∉ (after {} before).names

/-- In the run, the array is given the capacity along the dimension, counted from 0, at a time when
the name of the companion is free. -/
def Companion (commands : List Command) (name : String) (d capacity : Nat) : Prop :=
  ∃ before capacities, GivenAfter commands before name capacities ∧
    capacities[d]? = some capacity ∧ lengthName name (d + 1) ∉ (after {} before).names

theorem GivenAfter.append {commands before : List Command} {name : String} {capacities : List Nat}
    (h : GivenAfter commands before name capacities) (more : List Command) :
    GivenAfter (commands ++ more) before name capacities := by
  obtain ⟨c, later, rfl, hc⟩ := h
  exact ⟨c, later ++ more, by simp, hc⟩

theorem Declares.append {commands : List Command} {v : Variable} (h : Declares commands v)
    (more : List Command) : Declares (commands ++ more) v := by
  obtain ⟨before, c, later, rfl, hc⟩ := h
  exact ⟨before, c, later ++ more, by simp, hc⟩

/-- Capacities do not come from nowhere. -/
theorem exists_givenAfter (commands : List Command) {v : Variable} {capacities : List Nat}
    (hv : v ∈ (after {} commands).vars) (hc : v.capacities = some capacities) :
    ∃ before, GivenAfter commands before v.name capacities := by
  induction commands using List.reverseRecOn generalizing v with
  | nil => exact absurd hv List.not_mem_nil
  | append_singleton commands c ih =>
    by_cases hold : ∃ u ∈ (after {} commands).vars, u.name = v.name ∧ u.capacities = some capacities
    · obtain ⟨u, hu, hname, hcu⟩ := hold
      obtain ⟨before, hgiven⟩ := ih hu hcu
      exact ⟨before, hname ▸ hgiven.append [c]⟩
    · rw [after_append] at hv
      obtain ⟨hgives, hok⟩ := (leaves_of_mem hv).gives hc fun u hu hname hcu =>
        hold ⟨u, hu, hname, hcu⟩
      exact ⟨commands, c, [], rfl, hgives, hok⟩

/-- Nor do variables: each is declared by the run, or a companion of an array. -/
theorem declares_or_companion (commands : List Command) {w : Variable}
    (hw : w ∈ (after {} commands).vars) :
    (∃ u, Declares commands u ∧ u.name = w.name ∧ u.type = w.type) ∨
      ∃ name d capacity, Companion commands name d capacity ∧ w.name = lengthName name (d + 1) ∧
        w.type = .boundedInt 0 (saturated capacity) := by
  induction commands using List.reverseRecOn generalizing w with
  | nil => exact absurd hw List.not_mem_nil
  | append_singleton commands c ih =>
    rw [after_append] at hw
    have hleaves : c.Leaves (after {} commands) w := leaves_of_mem hw
    clear hw
    induction hleaves with
    | kept old =>
      rcases ih old with ⟨u, hu, hname, htype⟩ | ⟨name, d, capacity, hcompanion, hname, htype⟩
      · exact .inl ⟨u, hu.append [c], hname, htype⟩
      · obtain ⟨before, capacities, hgiven, hd⟩ := hcompanion
        exact .inr ⟨name, d, capacity, ⟨before, capacities, hgiven.append [c], hd⟩, hname, htype⟩
    | declared names fresh => exact .inl ⟨_, ⟨commands, c, [], rfl, names, fresh⟩, rfl, rfl⟩
    | sized _ _ _ ihleft => exact ihleft
    | companion gives ok dimension fresh =>
      exact .inr ⟨_, _, _, ⟨commands, _, ⟨c, [], rfl, gives, ok⟩, dimension, fresh⟩, rfl, rfl⟩

/-- What is declared in a run is found after it, with all but its capacities. -/
theorem type_of_find? {c : Command} {before rest : List Command} {u w : Variable}
    (hu : u ∈ (c.run (after {} before)).state.vars)
    (hw : (after {} (before ++ c :: rest)).find? u.name = some w) : w.type = u.type := by
  have hrest := steps_after (c.run (after {} before)).state rest
  obtain ⟨_, hfind⟩ := hrest.extends.find?_of_mem hu
  rw [after_append] at hw
  obtain rfl := Option.some.inj (hfind.symm.trans hw)
  rfl

theorem Companion.type_of_find? {commands : List Command} {name : String} {d capacity : Nat}
    (h : Companion commands name d capacity) (later : List Command) {w : Variable}
    (hw : (after {} (commands ++ later)).find? (lengthName name (d + 1)) = some w) :
    w.type = .boundedInt 0 (saturated capacity) := by
  obtain ⟨before, capacities, ⟨c, rest, rfl, hgives, hok⟩, hd, hfresh⟩ := h
  obtain ⟨length, hmem⟩ := hgives.companion hok hd hfresh
  rw [List.append_assoc] at hw
  exact Registry.type_of_find? hmem hw

theorem Declares.type_of_find? {commands : List Command} {v : Variable} (h : Declares commands v)
    (later : List Command) {w : Variable}
    (hw : (after {} (commands ++ later)).find? v.name = some w) : w.type = v.type := by
  obtain ⟨before, c, rest, rfl, hc, hfresh⟩ := h
  obtain ⟨_, hfind⟩ := c.find?_of_variable? hc hfresh
  rw [List.append_assoc] at hw
  have htype := Registry.type_of_find? (find?_eq_some_iff.1 hfind).1 hw
  exact htype

/-- The type of a length that goes up to the capacity, or to the largest literal. -/
def IsLengthType (capacity : Nat) (t : VarType) : Prop :=
  ∃ upper : Int64, t = .boundedInt 0 upper ∧ upper.toInt = min (capacity : Int) (2 ^ 63 - 1)

theorem isLengthType_saturated (capacity : Nat) :
    IsLengthType capacity (.boundedInt 0 (saturated capacity)) := ⟨_, rfl, toInt_saturated capacity⟩

end Registry

/-- An array has its capacities from a declaration of the run. After any such declaration its
companions are declared. One whose name was free is an integer from 0 to the capacity. One that the
run had declared before, on its own or as an array, keeps the type it was declared with. Any other
is left over from a capacity that the same array was given before, and goes up to that one. -/
theorem companion_types (commands : List Registry.Command) (v : Variable)
    (hv : v ∈ (Registry.after {} commands).vars) (capacities : List Nat)
    (hc : v.capacities = some capacities) :
    (∃ before, Registry.GivenAfter commands before v.name capacities) ∧
      ∀ before, Registry.GivenAfter commands before v.name capacities →
        ∀ d capacity, capacities[d]? = some capacity →
          ∃ w, (Registry.after {} commands).find? (lengthName v.name (d + 1)) = some w ∧
            (lengthName v.name (d + 1) ∉ (Registry.after {} before).names →
              Registry.IsLengthType capacity w.type) ∧
            (∀ u, Registry.Declares before u → u.name = lengthName v.name (d + 1) →
              w.type = u.type) ∧
            (lengthName v.name (d + 1) ∈ (Registry.after {} before).names →
              (∃ u, Registry.Declares before u ∧ u.name = lengthName v.name (d + 1)) ∨
                ∃ earlier, Registry.Companion before v.name d earlier ∧
                  Registry.IsLengthType earlier w.type) := by
  refine ⟨Registry.exists_givenAfter commands hv hc, fun before hgiven d capacity hd => ?_⟩
  have hmem : lengthName v.name (d + 1) ∈ (Registry.after {} commands).names := by
    have hlt := (List.getElem?_eq_some_iff.1 hd).1
    have hsound := (Registry.steps_after {} commands).sound Registry.sound_empty
    exact (hsound v hv capacities hc).2.2 (d + 1) (by omega) (by omega)
  obtain ⟨w, hw, hname⟩ := List.mem_map.1 hmem
  have hfind := Registry.find?_eq_some_iff.2 ⟨hw, hname⟩
  refine ⟨w, hfind, fun hfresh => ?_, fun u hu huname => ?_, fun htaken => ?_⟩
  · have hcompanion : Registry.Companion commands v.name d capacity :=
      ⟨before, capacities, hgiven, hd, hfresh⟩
    have htype := hcompanion.type_of_find? [] ((List.append_nil commands).symm ▸ hfind)
    exact htype ▸ Registry.isLengthType_saturated capacity
  · obtain ⟨c, later, rfl, -, -⟩ := hgiven
    exact hu.type_of_find? (c :: later) (huname ▸ hfind)
  · obtain ⟨c, later, rfl, -, -⟩ := hgiven
    obtain ⟨u, hu, huname⟩ := List.mem_map.1 htaken
    rcases Registry.declares_or_companion before hu with
      ⟨u', hdeclares, hname', -⟩ | ⟨name, d', earlier, hcompanion, hname', -⟩
    · exact .inl ⟨u', hdeclares, hname'.trans huname⟩
    · obtain ⟨rfl, he⟩ := lengthName_inj (hname'.symm.trans huname)
      obtain rfl := Nat.succ.inj he
      have htype := hcompanion.type_of_find? (c :: later) hfind
      exact .inr ⟨earlier, hcompanion, htype ▸ Registry.isLengthType_saturated earlier⟩

/-- An array is declared under the name of a companion, then the array that the companion is for,
and that one is given other capacities in the end. -/
def resizedQueue : List Registry.Command :=
  [.declareArray "queue_length_1" (.basic .int) [2], .declareArray "queue" (.basic .int) [3, 7],
    .setCapacities "queue" [4, 9]]

/-- The first companion stays an array. The second one is new when the array is declared, and is
left over when the array is given other capacities. -/
theorem companion_types_queue :
    (∃ u, (Registry.after {} (resizedQueue.take 2)).find? "queue_length_2" = some u ∧
      Registry.IsLengthType 7 u.type) ∧
    ∃ v ∈ (Registry.after {} resizedQueue).vars, v.name = "queue" ∧ v.capacities = some [4, 9] ∧
      ∃ w w', (Registry.after {} resizedQueue).find? "queue_length_1" = some w ∧
        w.type = .array (.basic .int) ∧
        (Registry.after {} resizedQueue).find? "queue_length_2" = some w' ∧
        ∃ earlier, Registry.Companion (resizedQueue.take 2) "queue" 1 earlier ∧
          Registry.IsLengthType earlier w'.type := by
  let v : Variable := { name := "queue", type := .array (.array (.basic .int)) }
  have hv : v.sized [3, 7] ∈ (Registry.after {} (resizedQueue.take 2)).vars :=
    .tail _ (.tail _ (.head _))
  have hv' : v.sized [4, 9] ∈ (Registry.after {} resizedQueue).vars := .tail _ (.tail _ (.head _))
  obtain ⟨-, hfirst⟩ := companion_types (resizedQueue.take 2) _ hv [3, 7] rfl
  obtain ⟨-, hsecond⟩ := companion_types resizedQueue _ hv' [4, 9] rfl
  have hdeclared : Registry.GivenAfter (resizedQueue.take 2) (resizedQueue.take 1) "queue" [3, 7] :=
    ⟨_, [], rfl, .declareArray _, rfl⟩
  have hresized : Registry.GivenAfter resizedQueue (resizedQueue.take 2) "queue" [4, 9] :=
    ⟨_, [], rfl, .setCapacities, rfl⟩
  obtain ⟨u, hu, hnew, -⟩ := hfirst _ hdeclared 1 7 rfl
  obtain ⟨w, hw, -, hkept, -⟩ := hsecond _ hresized 0 4 rfl
  obtain ⟨w', hw', -, -, hleft⟩ := hsecond _ hresized 1 9 rfl
  have hundeclared : ¬ ∃ u, Registry.Declares (resizedQueue.take 2) u ∧
      u.name = lengthName "queue" 2 := by
    rintro ⟨u, ⟨before, c, later, hsplit, hc, -⟩, hname⟩
    have hmem : c ∈ resizedQueue.take 2 := hsplit ▸ by simp
    rcases List.mem_pair.1 hmem with rfl | rfl <;> cases hc <;>
      exact absurd hname (by decide +kernel)
  refine ⟨⟨u, hu, hnew (by decide +kernel)⟩, _, hv', rfl, rfl, w, w', hw, ?_, hw', ?_⟩
  · exact hkept (Registry.arrayVariable "queue_length_1" (.basic .int) [2])
      ⟨[], _, _, rfl, rfl, by decide⟩ rfl
  · exact (hleft (by decide +kernel)).resolve_left hundeclared

/-- A truth value is declared under the name of a companion, and then the array. -/
def flagFirst : List Registry.Command :=
  [.declare { name := "queue_length_1", type := .basic .bool } rfl,
    .declareArray "queue" (.basic .int) [2, 7]]

/-- So the type of a companion is not always that of a length. -/
theorem companion_type_not_length :
    ¬ ∀ (commands : List Registry.Command), ∀ v ∈ (Registry.after {} commands).vars,
      ∀ capacities, v.capacities = some capacities →
        ∀ d capacity, capacities[d]? = some capacity →
          ∃ w, (Registry.after {} commands).find? (lengthName v.name (d + 1)) = some w ∧
            w.type = .boundedInt 0 (Registry.saturated capacity) := by
  intro h
  obtain ⟨w, hw, htype⟩ := h flagFirst _ (.tail _ (.head _)) [2, 7] rfl 0 2 rfl
  have hflag : (Registry.after {} flagFirst).find? "queue_length_1" =
      some { name := "queue_length_1", type := .basic .bool } := rfl
  obtain rfl := Option.some.inj (hflag.symm.trans hw)
  cases htype

end AutomataNet
