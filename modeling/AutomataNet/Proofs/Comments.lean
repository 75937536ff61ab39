import AutomataNet.Assembly.Basic
import AutomataNet.Proofs.Relabeling
/-!
# Comments have no say

Conversion looks past the comments on expressions: on inputs with other comments it takes the same
decisions, gives the same notices and fails in the same way, and its result has these other comments
in the places of the old ones (`Assembler.convert_relabel`). In particular comments can be removed
before or after (`convert_strip`).

There is one lemma to this effect for each pass, and below it one for each operation that the pass
is made of, down to the tests on guards, weights and assigned values.
-/

namespace AutomataNet

variable (ρ : Relabeling)

/-! ## Expansion -/

namespace Expr

mutual

theorem samples_relabel : ∀ e : Expr, (e.relabel ρ).samples = e.samples
  | .literal .. | .identifier .. | .distribution .. => rfl
  | .operator _ operands _ => by rw [relabel, samples, operandsSample_relabel operands, samples]
  | .arrayValue elements _ => by rw [relabel, samples, listSamples_relabel elements, samples]

theorem listSamples_relabel : ∀ es : List Expr, listSamples (relabelList ρ es) = listSamples es
  | [] => rfl
  | e :: es => by
    rw [relabelList, listSamples, samples_relabel e, listSamples_relabel es, listSamples]

theorem operandsSample_relabel :
    ∀ es : List (String × Expr), operandsSample (relabelOperands ρ es) = operandsSample es
  | [] => rfl
  | (_, e) :: es => by
    rw [relabelOperands, operandsSample, samples_relabel e, operandsSample_relabel es,
      operandsSample]

end

theorem real?_relabel (e : Expr) : (e.relabel ρ).real? = e.real? := by
  cases e with
  | literal v c => cases v <;> rfl
  | identifier | operator | arrayValue | distribution => rfl

end Expr

/-- Outcomes have no comments. -/
theorem integerOutcomes_relabel (name : String) (cap : Nat) (lo hi : Expr) :
    integerOutcomes name cap (lo.relabel ρ) (hi.relabel ρ) =
      List.map (.relabel ρ) <$> integerOutcomes name cap lo hi := by
  cases lo with
  | identifier | operator | arrayValue | distribution => rfl
  | literal v c =>
    cases v with
    | bool | real | constant => rfl
    | int lo =>
      cases hi with
      | identifier | operator | arrayValue | distribution => rfl
      | literal w d =>
        cases w with
        | bool | real | constant => rfl
        | int hi =>
          simp only [Expr.relabel, integerOutcomes]
          split
          · rfl
          · simp [Functor.map, Except.map, Function.comp_def]

theorem outcomes_relabel (name : String) (args : List Expr) (cap : Nat) :
    outcomes name (Expr.relabelList ρ args) cap =
      List.map (.relabel ρ) <$> outcomes name args cap := by
  match args with
  | [] | [_] | _ :: _ :: _ :: _ => rfl
  | [lo, hi] =>
    simp only [Expr.relabelList, outcomes]
    split
    · exact integerOutcomes_relabel ρ name cap lo hi
    · split
      · simp only [realOutcomes, Expr.real?_relabel]
        split
        · split
          · rfl
          · simp [Functor.map, Except.map, Function.comp_def]
        · rfl
      · rfl

theorem Assignment.outcomes?_relabel (cap : Nat) (a : Assignment) :
    (a.mapExprs (.relabel ρ)).outcomes? cap =
      Option.map (List.map (.relabel ρ)) <$> a.outcomes? cap := by
  -- a value that is not a sample as a whole
  have hvalue (v : Expr) :
      (if (v.relabel ρ).samples then .error .nestedSampling else .ok none :
        Except ExpansionError (Option (List Expr))) =
      Option.map (List.map (.relabel ρ)) <$>
        (if v.samples then .error .nestedSampling else .ok none) := by
    rw [Expr.samples_relabel]
    split <;> rfl
  unfold Assignment.outcomes?
  rw [Assignment.mapExprs_target, Expr.samples_relabel, Assignment.mapExprs_value]
  split
  · rfl
  · cases a.value with
    | distribution name args c =>
      simp only [Expr.relabel, outcomes_relabel]
      cases outcomes name args cap <;> rfl
    | literal v c => exact hvalue (.literal v c)
    | identifier name c => exact hvalue (.identifier name c)
    | operator op operands c => exact hvalue (.operator op operands c)
    | arrayValue es c => exact hvalue (.arrayValue es c)

/-- An assignment and its outcomes, with other comments. -/
def relabelSample (s : Assignment × Option (List Expr)) : Assignment × Option (List Expr) :=
  (s.1.mapExprs (.relabel ρ), s.2.map (List.map (.relabel ρ)))

theorem sampleAll_relabel (cap : Nat) (as : List Assignment) :
    sampleAll cap (as.map (·.mapExprs (.relabel ρ))) =
      List.map (relabelSample ρ) <$> sampleAll cap as := by
  induction as with
  | nil => rfl
  | cons a as ih =>
    simp only [List.map_cons, sampleAll, Assignment.outcomes?_relabel, ih]
    cases a.outcomes? cap with
    | error e => rfl
    | ok values => cases sampleAll cap as <;> rfl

theorem combinations_relabel (sampled : List (Assignment × Option (List Expr))) :
    combinations (sampled.map (relabelSample ρ)) =
      (combinations sampled).map (List.map (·.mapExprs (.relabel ρ))) := by
  induction sampled with
  | nil => rfl
  | cons s sampled ih =>
    obtain ⟨a, values⟩ := s
    cases values with
    | none => simp [combinations, relabelSample, ih, Function.comp_def]
    | some values =>
      simp only [List.map_cons, relabelSample, Option.map_some, combinations, ih, List.flatMap_map,
        List.map_flatMap, List.map_map]
      rfl

theorem combinationCount_relabel (sampled : List (Assignment × Option (List Expr))) :
    combinationCount (sampled.map (relabelSample ρ)) = combinationCount sampled := by
  have hvalues : (sampled.map (relabelSample ρ)).filterMap (·.2) =
      (sampled.filterMap (·.2)).map (List.map (.relabel ρ)) := by
    rw [List.filterMap_map, List.map_filterMap]
    rfl
  simp only [combinationCount, hvalues, List.foldl_map, List.length_map]

theorem Probability.share_relabel (p : Option Probability) (count : Nat) :
    share (p.map (·.mapExprs (.relabel ρ))) count = (share p count).mapExprs (.relabel ρ) := by
  cases p <;> simp [share, mapExprs]

theorem Destination.expand_relabel (cap : Nat) (d : Destination) :
    (d.mapExprs (.relabel ρ)).expand cap =
      List.map (·.mapExprs (.relabel ρ)) <$> d.expand cap := by
  have hweight : (d.probability.map (·.mapExprs (.relabel ρ))).any (·.exp.samples) =
      d.probability.any (·.exp.samples) := by
    rw [Option.any_map]
    simp only [Probability.mapExprs, Expr.samples_relabel]
  unfold Destination.expand
  simp only [Destination.mapExprs, hweight, sampleAll_relabel]
  split
  · rfl
  · cases sampleAll cap d.assignments with
    | error e => rfl
    | ok sampled =>
      have hall : (sampled.map (relabelSample ρ)).all (·.2.isNone) =
          sampled.all (·.2.isNone) := by
        simp [relabelSample, List.all_map, Function.comp_def]
      show (if (sampled.map (relabelSample ρ)).all (·.2.isNone) then _ else _) =
        List.map _ <$> (if sampled.all (·.2.isNone) then _ else _)
      rw [hall]
      split
      · rfl
      · simp only [combinationCount_relabel, Probability.share_relabel, combinations_relabel]
        split
        · simp [Functor.map, Except.map, Function.comp_def]
        · rfl

theorem expandDestinations_relabel (cap : Nat) (ds : List Destination) :
    expandDestinations cap (ds.map (·.mapExprs (.relabel ρ))) =
      List.map (List.map (·.mapExprs (.relabel ρ))) <$> expandDestinations cap ds := by
  induction ds with
  | nil => rfl
  | cons d ds ih =>
    simp only [List.map_cons, expandDestinations, Destination.expand_relabel, ih]
    cases d.expand cap with
    | error e => rfl
    | ok es => cases expandDestinations cap ds <;> rfl

theorem Edge.guardExp?_mapExprs (f : Expr → Expr) (e : Edge) :
    (e.mapExprs f).guardExp? = e.guardExp?.map f := by
  simp only [Edge.guardExp?, Edge.mapExprs, Option.map_map]
  rfl

theorem Edge.expand_relabel (cap : Nat) (e : Edge) :
    (e.mapExprs (.relabel ρ)).expand cap =
      (e.expand cap).mapState (·.mapExprs (.relabel ρ)) := by
  unfold Edge.expand
  rw [Edge.guardExp?_mapExprs, Option.any_map]
  simp only [Expr.samples_relabel]
  split
  · rfl
  · rw [Edge.mapExprs_destinations, expandDestinations_relabel]
    cases expandDestinations cap e.destinations with
    | error err => rfl
    | ok groups =>
      simp [Functor.map, Except.map, Attempt.ok, Attempt.mapState, Edge.mapExprs, List.countP_map,
        Function.comp_def]

theorem Automaton.expand_relabel (cap : Nat) (a : Automaton) :
    (a.mapExprs (.relabel ρ)).expand cap =
      (a.expand cap).mapState (·.mapExprs (.relabel ρ)) := by
  unfold Automaton.expand
  rw [Automaton.mapExprs_edges, Attempt.onEach_map (Edge.expand_relabel ρ cap)]
  obtain ⟨edges, outcome, notices⟩ := Attempt.onEach (Edge.expand cap) a.edges
  cases outcome <;> rfl

theorem Model.expand_relabel (cap : Nat) (m : Model) :
    (m.mapExprs (.relabel ρ)).expand cap =
      (m.expand cap).mapState (·.mapExprs (.relabel ρ)) := by
  unfold Model.expand
  rw [Model.mapExprs_automata, Attempt.onEach_map (Automaton.expand_relabel ρ cap)]
  obtain ⟨automata, outcome, notices⟩ := Attempt.onEach (Automaton.expand cap) m.automata
  cases outcome <;> rfl

/-! ## Pruning -/

theorem Expr.isUnitWeight_relabel (e : Expr) : (e.relabel ρ).isUnitWeight = e.isUnitWeight := by
  cases e with
  | literal v c => cases v <;> rfl
  | identifier | operator | arrayValue | distribution => rfl

theorem Assignment.isIdentity_relabel (a : Assignment) :
    (a.mapExprs (.relabel ρ)).isIdentity = a.isIdentity :=
  Expr.same_relabel ρ a.target a.value

theorem Destination.isIdle_relabel (location : String) (d : Destination) :
    (d.mapExprs (.relabel ρ)).isIdle location = d.isIdle location := by
  simp only [isIdle, mapExprs, Option.all_map, List.all_map, Function.comp_def,
    Probability.mapExprs, Expr.isUnitWeight_relabel, Assignment.isIdentity_relabel]
  rfl

theorem Edge.isIdle_relabel (e : Edge) : (e.mapExprs (.relabel ρ)).isIdle = e.isIdle := by
  simp only [isIdle, mapExprs, List.all_map, Function.comp_def, Destination.isIdle_relabel]

theorem Edge.isUnguarded_relabel (e : Edge) :
    (e.mapExprs (.relabel ρ)).isUnguarded = e.isUnguarded := by
  unfold isUnguarded
  rw [guardExp?_mapExprs]
  cases e.guardExp? with
  | none => rfl
  | some g => exact g.isTrue_relabel ρ

theorem Automaton.edgesWithAction_mapExprs (f : Expr → Expr) (a : Automaton) (action : String) :
    (a.mapExprs f).edgesWithAction action = (a.edgesWithAction action).map (·.mapExprs f) :=
  List.filter_map

theorem Automaton.actions_mapExprs (f : Expr → Expr) (a : Automaton) :
    (a.mapExprs f).actions = a.actions :=
  List.filterMap_map

theorem Automaton.isInert_relabel (a : Automaton) (action : String) :
    (a.mapExprs (.relabel ρ)).isInert action = a.isInert action := by
  have haction : (a.mapExprs (.relabel ρ)).hasAction action = a.hasAction action := List.any_map
  unfold isInert
  rw [haction, edgesWithAction_mapExprs]
  simp only [List.all_map, List.any_map, Function.comp_def, Edge.isIdle_relabel,
    Edge.isUnguarded_relabel]
  rfl

theorem Model.updateAutomaton_mapExprs (f : Expr → Expr) {g g' : Automaton → Automaton}
    (h : ∀ a, g' (a.mapExprs f) = (g a).mapExprs f) (name : String) (as : List Automaton) :
    updateAutomaton name g' (as.map (·.mapExprs f)) =
      (updateAutomaton name g as).map (·.mapExprs f) := by
  induction as with
  | nil => rfl
  | cons a as ih =>
    simp only [List.map_cons, updateAutomaton, h, ih]
    by_cases hname : a.name = name
    · rw [if_pos hname, if_pos (show (a.mapExprs f).name = name from hname), List.map_cons]
    · rw [if_neg hname, if_neg (show (a.mapExprs f).name ≠ name from hname), List.map_cons]

theorem Idler.remove_mapExprs (f : Expr → Expr) (i : Idler) (m : Model) :
    i.remove (m.mapExprs f) = (i.remove m).mapExprs f := by
  have hsilence (a : Automaton) : i.silence (a.mapExprs f) = (i.silence a).mapExprs f :=
    congrArg (fun edges => ({ a.mapExprs f with edges } : Automaton)) List.filter_map
  exact congrArg (fun automata => ({ (i.remove m).mapExprs f with automata } : Model))
    (Model.updateAutomaton_mapExprs f hsilence i.automaton m.automata)

theorem Model.idlers_relabel (actions : List String) (m : Model) :
    (m.mapExprs (.relabel ρ)).idlers actions = m.idlers actions := by
  unfold idlers mapExprs
  simp only [List.filter_map, List.filterMap_map, Function.comp_def, Automaton.isInert_relabel]
  rfl

theorem Model.prune_relabel (actions : List String) (m : Model) :
    (m.mapExprs (.relabel ρ)).prune actions =
      (m.prune actions).mapState (·.mapExprs (.relabel ρ)) := by
  have hremove (is : List Idler) : is.foldl (fun m i => i.remove m) (m.mapExprs (.relabel ρ)) =
      (is.foldl (fun m i => i.remove m) m).mapExprs (.relabel ρ) :=
    List.foldl_hom _ fun m i => i.remove_mapExprs (.relabel ρ) m
  unfold prune
  simp only [idlers_relabel, hremove]
  rw [show (fun i : Idler => !i.fits (m.mapExprs (.relabel ρ))) = fun i => !i.fits m from rfl]
  cases (m.idlers actions).find? (!·.fits m) <;> rfl

/-! ## Synchronization -/

theorem Automaton.discard?_relabel (a : Automaton) (action : String) (l : Location) :
    (a.mapExprs (.relabel ρ)).discard? action l =
      (a.discard? action l).map (·.mapExprs (.relabel ρ)) := by
  have hdisj (g : Expr) (gs : List Expr) :
      (gs.map (·.relabel ρ)).foldl .disj (g.relabel ρ) = (gs.foldl .disj g).relabel ρ := by
    rw [List.foldl_map]
    exact List.foldl_hom _ fun g g' => (Expr.relabel_binary ρ .or g g').symm
  have hedges : ((a.mapExprs (.relabel ρ)).edgesWithAction action).filter (·.location = l.name) =
      ((a.edgesWithAction action).filter (·.location = l.name)).map (·.mapExprs (.relabel ρ)) := by
    rw [edgesWithAction_mapExprs, List.filter_map]
    rfl
  unfold discard?
  simp only [hedges, List.any_map, List.filterMap_map, Function.comp_def, Edge.isUnguarded_relabel,
    Edge.guardExp?_mapExprs, ← List.map_filterMap]
  split
  · rfl
  · cases ((a.edgesWithAction action).filter (·.location = l.name)).filterMap (·.guardExp?) with
    | nil => rfl
    | cons g gs => simp [Edge.mapExprs, Guard.mapExprs, Destination.mapExprs, hdisj]

theorem Automaton.discards_relabel (a : Automaton) (action : String) :
    (a.mapExprs (.relabel ρ)).discards action =
      (a.discards action).map (·.mapExprs (.relabel ρ)) := by
  rw [discards, discards, List.map_filterMap]
  exact congrArg (List.filterMap · a.locations) (funext (discard?_relabel ρ a action))

theorem Automaton.inputEnable_relabel (a : Automaton) (action : String) :
    (a.mapExprs (.relabel ρ)).inputEnable action =
      (a.inputEnable action).mapExprs (.relabel ρ) := by
  rw [inputEnable, discards_relabel]
  simp [inputEnable, mapExprs]

namespace Model

theorem automaton?_mapExprs (f : Expr → Expr) (m : Model) (name : String) :
    (m.mapExprs f).automaton? name = (m.automaton? name).map (·.mapExprs f) := List.find?_map

theorem enableReceivers_relabel (action : String) (names : List String) (m : Model) :
    enableReceivers action names (m.mapExprs (.relabel ρ)) =
      ((enableReceivers action names m).1.mapExprs (.relabel ρ),
        (enableReceivers action names m).2) := by
  induction names generalizing m with
  | nil => rfl
  | cons name names ih =>
    have hautomata : updateAutomaton name (·.inputEnable action)
        (m.automata.map (·.mapExprs (.relabel ρ))) =
        (updateAutomaton name (·.inputEnable action) m.automata).map (·.mapExprs (.relabel ρ)) :=
      updateAutomaton_mapExprs _ (Automaton.inputEnable_relabel ρ · action) name m.automata
    have hnext : ({ m.mapExprs (.relabel ρ) with
        automata := updateAutomaton name (·.inputEnable action)
          (m.mapExprs (.relabel ρ)).automata } : Model) =
        ({ m with automata := updateAutomaton name (·.inputEnable action) m.automata } :
          Model).mapExprs (.relabel ρ) :=
      congrArg (fun automata => ({ m.mapExprs (.relabel ρ) with automata } : Model)) hautomata
    simp only [enableReceivers, hnext, ih, automaton?_mapExprs, Option.map_map, Function.comp_def,
      Automaton.discards_relabel, List.length_map]
    rfl

theorem addAction_mapExprs (f : Expr → Expr) (name : String) (m : Model) :
    (m.mapExprs f).addAction name = (m.addAction name).mapExprs f := by
  unfold addAction
  rw [show (m.mapExprs f).hasAction name = m.hasAction name from rfl]
  split <;> rfl

theorem addEventActions_mapExprs (f : Expr → Expr) (event : String) (received : Bool) (m : Model) :
    (m.mapExprs f).addEventActions event received =
      (m.addEventActions event received).mapExprs f := by
  unfold addEventActions
  simp only [addAction_mapExprs]
  split <;> rfl

theorem addEvent_relabel (entry : EventEntry) (m : Model) :
    (m.mapExprs (.relabel ρ)).addEvent entry =
      (m.addEvent entry).mapState (·.mapExprs (.relabel ρ)) := by
  unfold addEvent
  simp only [addEventActions_mapExprs, enableReceivers_relabel]
  rw [mapExprs_system]
  split
  · rfl
  · split <;> rfl

theorem addEvents_relabel (entries : List EventEntry) (actions : List String) (m : Model) :
    (m.mapExprs (.relabel ρ)).addEvents entries actions =
      (m.addEvents entries actions).mapState (·.mapExprs (.relabel ρ)) := by
  induction entries generalizing actions m with
  | nil => rfl
  | cons entry entries ih =>
    rw [addEvents, addEvent_relabel, addEvents]
    exact Attempt.mapState_andThen (fun m more => ih _ m) _

theorem synchronize_relabel (events : EventTable) (m : Model) :
    (m.mapExprs (.relabel ρ)).synchronize events =
      (m.synchronize events).mapState (·.mapExprs (.relabel ρ)) := by
  have helements : (m.mapExprs (.relabel ρ)).withElements =
      m.withElements.mapExprs (.relabel ρ) := by
    simp [withElements, mapExprs, Automaton.mapExprs, Function.comp_def]
  unfold synchronize
  rw [helements, addEvents_relabel]
  rfl

end Model

/-! ## Statecharts -/

namespace Registry

theorem declare_mapExprs (f : Expr → Expr) (v : Variable) (r : Registry) :
    (r.mapExprs f).declare (v.mapExprs f) = (r.declare v).mapState (·.mapExprs f) := by
  rcases declare_cases v r with ⟨taken, h⟩ | ⟨fresh, h⟩
  · rw [h]
    exact dif_pos (contains_iff.2 taken)
  · have fresh' : (r.mapExprs f).contains (v.mapExprs f).name = false := fresh
    have hpush : (r.mapExprs f).push (v.mapExprs f) fresh' = (r.push v fresh).mapExprs f :=
      eq_of_vars_eq (by simp)
    rw [h, declare_eq_push fresh', hpush]
    rfl

theorem lengthVariable_relabel (array : String) (dimension capacity length : Nat) :
    (lengthVariable array dimension capacity length).mapExprs (.relabel ρ) =
      lengthVariable array dimension capacity length := by
  simp [lengthVariable, Variable.mapExprs, VarType.boundedInt, VarType.mapExprs]

theorem declareLengths_relabel (array : String) (d : Nat) (sizes : List (Nat × Nat))
    (r : Registry) :
    declareLengths array d sizes (r.mapExprs (.relabel ρ)) =
      (declareLengths array d sizes r).mapState (·.mapExprs (.relabel ρ)) := by
  induction sizes generalizing d r with
  | nil => rfl
  | cons size sizes ih =>
    obtain ⟨capacity, length⟩ := size
    rw [declareLengths, declareLengths, contains_mapExprs]
    split
    · exact ih (d + 1) r
    · -- the new variable has no comments
      rw [← lengthVariable_relabel ρ, declare_mapExprs, lengthVariable_relabel]
      exact Attempt.mapState_andThen (fun r _ => ih (d + 1) r) _

theorem levelLengths_relabel (n : Nat) (level : List Expr) :
    levelLengths n (level.map (.relabel ρ)) = levelLengths n level := by
  induction n generalizing level with
  | zero => rfl
  | succ n ih =>
    have hnext : (level.map (.relabel ρ)).flatMap Expr.elements =
        (level.flatMap Expr.elements).map (.relabel ρ) := by
      rw [List.flatMap_map, List.map_flatMap]
      exact congrArg (level.flatMap ·) (funext (Expr.elements_relabel ρ))
    rw [levelLengths, levelLengths, hnext, ih, List.foldl_map]
    simp only [Expr.elements_relabel, List.length_map]

theorem initialLengths_relabel (initial : Option Expr) (n : Nat) :
    initialLengths (initial.map (.relabel ρ)) n = initialLengths initial n := by
  cases initial with
  | none => rfl
  | some e => exact levelLengths_relabel ρ n [e]

theorem sized_mapExprs (f : Expr → Expr) (name : String) (capacities : List Nat)
    (vs : List Variable) :
    sized name capacities (vs.map (·.mapExprs f)) =
      (sized name capacities vs).map (·.mapExprs f) := by
  rw [sized, sized, List.map_map, List.map_map]
  refine List.map_congr_left fun v _ => ?_
  simp only [Function.comp, Variable.mapExprs_name]
  split <;> rfl

theorem setCapacities_relabel (name : String) (capacities : List Nat) (r : Registry) :
    (r.mapExprs (.relabel ρ)).setCapacities name capacities =
      (r.setCapacities name capacities).mapState (·.mapExprs (.relabel ρ)) := by
  have hfind' := r.find?_mapExprs (.relabel ρ) name
  cases hfind : r.find? name with
  | none =>
    rw [hfind] at hfind'
    rw [setCapacities_of_find?_none hfind, setCapacities_of_find?_none hfind']
    rfl
  | some v =>
    rw [hfind] at hfind'
    rw [setCapacities_of_find? hfind, setCapacities_of_find? hfind']
    have hsizes : sizes (v.mapExprs (.relabel ρ)) capacities = sizes v capacities := by
      rw [sizes, sizes, Variable.mapExprs_initial, Variable.mapExprs_type,
        VarType.dimensions_mapExprs, initialLengths_relabel]
    simp only [Variable.isArray_mapExprs, Variable.mapExprs_type, VarType.dimensions_mapExprs,
      hsizes]
    split
    · rfl
    · split
      · rfl
      · cases overflow? 1 (sizes v capacities) with
        | some x => rfl
        | none =>
          rw [Option.elim_none, Option.elim_none, ← declareLengths_relabel]
          exact congrArg _ (eq_of_vars_eq (sized_mapExprs ..))

theorem hasLengths_mapExprs (f : Expr → Expr) (r : Registry) (v : Variable) :
    (r.mapExprs f).hasLengths (v.mapExprs f) = r.hasLengths v := by
  unfold hasLengths
  rw [Variable.mapExprs_type, VarType.dimensions_mapExprs]
  simp only [contains_mapExprs]
  rfl

theorem sizeArrays_relabel (capacity : Nat) (vs : List Variable) (r : Registry) :
    sizeArrays capacity (vs.map (·.mapExprs (.relabel ρ))) (r.mapExprs (.relabel ρ)) =
      (sizeArrays capacity vs r).mapState (·.mapExprs (.relabel ρ)) := by
  induction vs generalizing r with
  | nil => rfl
  | cons v vs ih =>
    have hinitial : (v.mapExprs (.relabel ρ)).initial.any (·.isArrayValue) =
        v.initial.any (·.isArrayValue) := by
      simp [Variable.mapExprs, Option.any_map]
    rw [List.map_cons, sizeArrays, sizeArrays, hinitial, hasLengths_mapExprs,
      Variable.mapExprs_name, Variable.mapExprs_type, VarType.dimensions_mapExprs,
      setCapacities_relabel]
    split
    · rfl
    · show (Attempt.mapState (fun r : Registry => r.mapExprs (.relabel ρ))
        (.after _ (.mapError _ (r.setCapacities v.name _)))).andThen _ = _
      exact Attempt.mapState_andThen (fun r _ => ih r) _

end Registry

namespace Chart

theorem check_relabel (capacity : Nat) (c : Chart) :
    (c.mapExprs (.relabel ρ)).check capacity =
      (·.mapExprs (.relabel ρ)) <$> c.check capacity := by
  have hlocations : (c.automaton.mapExprs (.relabel ρ)).usedLocations =
      c.automaton.usedLocations := by
    simp [Automaton.usedLocations, Automaton.mapExprs, List.flatMap_map, Edge.mapExprs,
      Destination.mapExprs, Function.comp_def]
  have harrays : (c.automaton.mapExprs (.relabel ρ)).unsizedArrays =
      c.automaton.unsizedArrays.map (·.mapExprs (.relabel ρ)) := by
    simp only [Automaton.unsizedArrays, Automaton.mapExprs, Registry.mapExprs_vars, List.filter_map,
      Function.comp_def, Variable.isArray_mapExprs]
    rfl
  have hsized : (c.automaton.mapExprs (.relabel ρ)).locals.sizeArrays capacity
      (c.automaton.unsizedArrays.map (·.mapExprs (.relabel ρ))) =
      (c.automaton.locals.sizeArrays capacity c.automaton.unsizedArrays).mapState
        (·.mapExprs (.relabel ρ)) :=
    Registry.sizeArrays_relabel ρ capacity _ _
  have hlocation (l : String) : (c.automaton.mapExprs (.relabel ρ)).hasLocation l =
      c.automaton.hasLocation l := rfl
  unfold check
  rw [mapExprs_automaton, mapExprs_name]
  simp only [hlocation, hlocations, harrays, hsized, Attempt.toReport_mapState]
  rw [Automaton.mapExprs_name]
  split
  · rfl
  · cases c.automaton.usedLocations.find? (!c.automaton.hasLocation ·) with
    | some l => rfl
    | none =>
      simp only [Report.map_eq]
      cases (c.automaton.locals.sizeArrays capacity c.automaton.unsizedArrays).toReport.outcome <;>
        rfl

theorem accept_relabel (capacity : Nat) (c : Chart) (events : EventTable) :
    (c.mapExprs (.relabel ρ)).accept capacity events =
      (c.accept capacity events).mapResult (·.mapExprs (.relabel ρ)) := by
  unfold accept
  rw [check_relabel, Report.map_eq]
  obtain ⟨outcome, notices⟩ := c.check capacity
  cases outcome with
  | error e => rfl
  | ok a =>
    show (⟨(events.recordLabels a.name (a.mapExprs (.relabel ρ)).actions).1, _, notices ++
      (events.recordLabels a.name (a.mapExprs (.relabel ρ)).actions).2⟩ : Attempt _ _ _) = _
    rw [Automaton.actions_mapExprs]
    rfl

end Chart

/-! ## Assembly -/

namespace Assembler

theorem acceptChart_relabel (capacity : Nat) (c : Chart) (events : EventTable) :
    acceptChart capacity (c.mapExprs (.relabel ρ)) events =
      Prod.map (·.mapExprs (.relabel ρ)) id <$> acceptChart capacity c events := by
  unfold acceptChart
  rw [Chart.accept_relabel, Report.map_eq, Chart.mapExprs_plain]
  split
  · rfl
  · obtain ⟨events', outcome, notices⟩ := c.accept capacity events
    cases outcome <;> rfl

theorem addAutomaton_relabel (a : Automaton) (m : Model) :
    addAutomaton (a.mapExprs (.relabel ρ)) (m.mapExprs (.relabel ρ)) =
      (·.mapExprs (.relabel ρ)) <$> addAutomaton a m := by
  have hdeclared : a.actions.foldl (fun m action => m.addAction action) (m.mapExprs (.relabel ρ)) =
      (a.actions.foldl (fun m action => m.addAction action) m).mapExprs (.relabel ρ) :=
    List.foldl_hom _ fun m action => m.addAction_mapExprs (.relabel ρ) action
  have hadded (m : Model) : (m.mapExprs (.relabel ρ)).addAutomaton (a.mapExprs (.relabel ρ)) =
      (m.addAutomaton a).mapState (·.mapExprs (.relabel ρ)) := by
    unfold Model.addAutomaton
    rw [Model.automaton?_mapExprs, Option.isSome_map, Automaton.mapExprs_name]
    split
    · rfl
    · simp [Attempt.after, Attempt.ok, Attempt.mapState, Model.mapExprs]
  unfold addAutomaton
  rw [Automaton.actions_mapExprs, hdeclared, hadded, Attempt.toReport_mapState, Report.mapError_map]

theorem addCharts_relabel (capacity : Nat) (charts : List Chart) (m : Model) (events : EventTable) :
    addCharts capacity (charts.map (·.mapExprs (.relabel ρ))) (m.mapExprs (.relabel ρ)) events =
      Prod.map (·.mapExprs (.relabel ρ)) id <$> addCharts capacity charts m events := by
  induction charts generalizing m events with
  | nil => rfl
  | cons c charts ih =>
    simp only [List.map_cons, addCharts, acceptChart_relabel, Report.bind_map, Report.map_bind,
      Prod.map, id, addAutomaton_relabel, ih]

theorem assemble_relabel (s : Assembler) (charts : List Chart) (capacity : Nat) :
    s.assemble (charts.map (·.mapExprs (.relabel ρ))) capacity =
      (·.mapExprs (.relabel ρ)) <$> s.assemble charts capacity := by
  have hcharts : addCharts capacity (charts.map (·.mapExprs (.relabel ρ))) s.start {} =
      Prod.map (·.mapExprs (.relabel ρ)) id <$> addCharts capacity charts s.start {} :=
    addCharts_relabel ρ capacity charts s.start {}
  have hsynced (m : Model) (events : EventTable) :
      (m.mapExprs (.relabel ρ)).synchronize events =
        ⟨(m.synchronize events).state.mapExprs (.relabel ρ), (m.synchronize events).outcome,
          (m.synchronize events).notices⟩ :=
    m.synchronize_relabel ρ events
  unfold assemble
  simp only [List.length_map, hcharts, Report.bind_map, Report.map_bind, Prod.map, id, hsynced,
    Model.prune_relabel, Attempt.toReport_mapState, Report.mapError_map, Model.expand_relabel]

/-- Comments are carried along. -/
theorem convert_relabel (s : Assembler) (charts : List Chart) (capacity : Nat)
    (properties : List Property) :
    s.convert (charts.map (·.mapExprs (.relabel ρ))) capacity
        (properties.map (·.mapExprs (.relabel ρ))) =
      (·.mapExprs (.relabel ρ)) <$> s.convert charts capacity properties := by
  unfold convert
  rw [assemble_relabel]
  have hproperties (m : Model) : ({ m.mapExprs (.relabel ρ) with
        properties := (m.mapExprs (.relabel ρ)).properties ++
          properties.map (·.mapExprs (.relabel ρ)) } : Model) =
      Model.mapExprs (.relabel ρ) { m with properties := m.properties ++ properties } := by
    simp [Model.mapExprs]
  simp only [Report.bind_map, Report.map_bind, hproperties, Model.normalize_relabel,
    Attempt.toReport_mapState, Report.mapError_map, Report.map_pure]
  simp only [Model.mapExprs, List.length_map]

end Assembler

/-! ## Removing comments -/

/-- Removes the comments of all nodes. -/
def Expr.strip : Expr → Expr := relabel .erase

/-- Whether comments are removed before the conversion or after it makes no difference, and if it
fails, it fails with the same error. Nor can the comments be told from the notices. -/
theorem convert_strip (s : Assembler) (charts : List Chart) (capacity : Nat)
    (properties : List Property) :
    (s.convert (charts.map (·.mapExprs .strip)) capacity
        (properties.map (·.mapExprs .strip))).outcome =
      (·.mapExprs .strip) <$> (s.convert charts capacity properties).outcome ∧
    (s.convert (charts.map (·.mapExprs .strip)) capacity
        (properties.map (·.mapExprs .strip))).notices =
      (s.convert charts capacity properties).notices := by
  have h : s.convert (charts.map (·.mapExprs .strip)) capacity
      (properties.map (·.mapExprs .strip)) =
      (·.mapExprs .strip) <$> s.convert charts capacity properties :=
    s.convert_relabel .erase charts capacity properties
  rw [h, Report.map_eq]
  exact ⟨rfl, rfl⟩

end AutomataNet
