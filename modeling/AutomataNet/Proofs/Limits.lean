import AutomataNet.Proofs.Growth
/-!
# Models too deep to be read

Statecharts and properties that are read from texts keep within the reader's limit of depth, but the
model they are converted to need not (`zeros_too_deep`). How deep it can get is told by the deepest
text, the guards and samples that events choose from, and the longest array value that anything is
compared with (`conversion_nests_within`).
-/

namespace AutomataNet

/-! ## Measures -/

def Destination.exprs (d : Destination) : List Expr :=
  d.probability.toList.map (·.exp) ++ d.assignments.flatMap fun a => [a.target, a.value]

/-- All expressions on an edge. -/
def Edge.exprs (e : Edge) : List Expr :=
  e.guard.toList.map (·.exp) ++ e.destinations.flatMap (·.exprs)

namespace Automaton

/-- The largest number of elements that an equality on the edges compares with. -/
def compared (a : Automaton) : Nat :=
  ((a.edges.flatMap (·.exprs)).map (·.compared)).max?.getD 0

theorem each_bounded {a : Automaton} {k : Nat} (h : ∀ e ∈ a.edges, e.Each (Expr.FitsAt k)) :
    ∀ e ∈ a.edges, e.Each (Expr.Bounded k a.compared) := by
  intro e he
  have hall : ∀ x ∈ e.exprs, x.compared ≤ a.compared := fun x hx =>
    List.le_max?_getD_of_mem (List.mem_map_of_mem (List.mem_flatMap.2 ⟨e, he, hx⟩))
  have hdest : ∀ d ∈ e.destinations, ∀ x ∈ d.exprs, x.compared ≤ a.compared := fun d hd x hx =>
    hall x (List.mem_append_right _ (List.mem_flatMap.2 ⟨d, hd, hx⟩))
  refine ⟨fun g hg => ⟨(h e he).guard g hg, hall g.exp ?_⟩, fun d hd => ?_⟩
  · simp [Edge.exprs, Option.mem_def.1 hg]
  · have heach := (h e he).destinations d hd
    refine ⟨fun p hp => ⟨heach.weight p hp, hdest d hd p.exp ?_⟩,
      fun x hx => ⟨heach.target x hx, hdest d hd x.target ?_⟩,
      fun x hx => ⟨heach.value x hx, hdest d hd x.value ?_⟩⟩
    · simp [Destination.exprs, Option.mem_def.1 hp]
    · exact List.mem_append_right _ (List.mem_flatMap.2 ⟨x, hx, by simp⟩)
    · exact List.mem_append_right _ (List.mem_flatMap.2 ⟨x, hx, by simp⟩)

end Automaton

/-- The largest number of elements that anything in the input is compared with. -/
def longestComparison (charts : List Chart) (properties : List Property) : Nat :=
  (charts.map (·.automaton.compared) ++ properties.map (·.expression.compared)).max?.getD 0

/-- The largest number of levels that the edges of a statechart may gain. -/
def largestGrowth (charts : List Chart) : Nat := (charts.map (·.automaton.growth)).max?.getD 0

/-- How deep the model can get when nothing in the input is deeper than `d`. -/
def depthBound (d : Nat) (charts : List Chart) (properties : List Property) : Nat :=
  max 7 (d + 1 + largestGrowth charts + (longestComparison charts properties - 1))

section

variable (d : Nat) (charts : List Chart) (properties : List Property)

theorem compared_le_longest_of_chart {c : Chart} (hc : c ∈ charts) :
    c.automaton.compared ≤ longestComparison charts properties :=
  List.le_max?_getD_of_mem (List.mem_append_left _ (List.mem_map_of_mem hc))

theorem compared_le_longest_of_property {p : Property} (hp : p ∈ properties) :
    p.expression.compared ≤ longestComparison charts properties :=
  List.le_max?_getD_of_mem (List.mem_append_right _ (List.mem_map_of_mem hp))

theorem add_one_le_depthBound :
    d + 1 + (longestComparison charts properties - 1) ≤ depthBound d charts properties := by
  refine le_trans ?_ (le_max_right ..)
  omega

theorem add_growth_le_depthBound {c : Chart} (hc : c ∈ charts) :
    d + 1 + c.automaton.growth + (longestComparison charts properties - 1) ≤
      depthBound d charts properties := by
  have hgrowth : c.automaton.growth ≤ largestGrowth charts :=
    List.le_max?_getD_of_mem (List.mem_map_of_mem hc)
  refine le_trans ?_ (le_max_right ..)
  omega

end

/-- The parts of an automaton whose file is at most `d` deep. A missing field is written as its
default, which may take the file to three levels, but expressions are further down. -/
theorem Automaton.bounded_of_depth {a : Automaton} {d : Nat}
    (h : (codec.encode a).depth + 1 ≤ max d 3) :
    (Registry.codec.encode a.locals).FitsAt (max d 3 - 1) 1 ∧
      ∀ e ∈ a.edges, e.Each (Expr.Bounded (d - 1) a.compared) := by
  have hfits : (codec.encode a).FitsAt (max d 3 - 1) 0 := Nat.le_sub_of_add_le h
  obtain ⟨hlocals, hedges⟩ := each_of_fitsAt hfits
  refine ⟨hlocals, each_bounded fun e he => (hedges e he).mono ?_⟩
  intro level x hlevel hx
  have hx : x.toJson.depth + level ≤ max d 3 - 1 := hx
  change x.toJson.depth + level ≤ d - 1
  omega

theorem Expr.Bounded.normalizeProperty {p : Property} {globals : Registry} {k n level : Nat}
    (h : p.expression.Bounded k (n + 1) level) (hn : (p.normalize globals).Succeeds) :
    (p.normalize globals).state.expression.FitsAt (k + n) level := by
  have hnormal : (Property.normalizeExpr { globals } p.expression).outcome =
      .ok (p.normalize globals).state.expression :=
    Attempt.succeeds_replace (Attempt.succeeds_mapError.1 hn)
  have hdepth := Property.depth_normalizeExpr hnormal h.2
  have hfits : p.expression.toJson.depth + level ≤ k := h.1
  change (p.normalize globals).state.expression.toJson.depth + level ≤ k + n
  omega

/-! ## Conversion -/

namespace Assembler

variable {s : Assembler} {charts : List Chart} {capacity : Nat} {properties : List Property}
  {m : Model}

/-- A converted model is the normal form of an assembled one, to which the properties are added. -/
theorem assembled_of_convert (h : (s.convert charts capacity properties).outcome = .ok m) :
    ∃ m₁, (s.assemble charts capacity).outcome = .ok m₁ ∧ m₁.globals = {} ∧
      { m₁ with properties }.normalize.Succeeds ∧ { m₁ with properties }.normalize.state = m := by
  simp only [convert, Report.outcome_bind, Report.outcome_mapError, Report.outcome_note,
    Report.outcome_pure, Except.bind_eq_ok_iff, Except.mapError_eq_ok_iff,
    Attempt.toReport_eq_ok_iff, Except.ok.injEq] at h
  obtain ⟨m₁, hassemble, m₂, ⟨hnormalize, rfl⟩, _, -, rfl⟩ := h
  obtain ⟨-, -, hexpand, hstate⟩ := assemble_eq_ok_iff.1 hassemble
  have hglobals : m₁.globals = {} := by
    rw [← hstate, Model.state_expand hexpand]
    rfl
  have hproperties : m₁.properties = [] := by
    rw [← hstate, Model.state_expand hexpand]
    rfl
  rw [hproperties, List.nil_append] at hnormalize ⊢
  exact ⟨m₁, hassemble, hglobals, hnormalize, rfl⟩

/-- Each automaton of an assembled model keeps within the limit once it is normalized. -/
theorem fitsAt_assembled (h : (s.assemble charts capacity).outcome = .ok m) {k n limit : Nat}
    (hlimit : 5 ≤ limit) (hroom : ∀ c ∈ charts, k + c.automaton.growth + n ≤ limit)
    (hlocals : ∀ c ∈ charts, (Registry.codec.encode c.automaton.locals).FitsAt limit 1)
    (hedges : ∀ c ∈ charts, ∀ e ∈ c.automaton.edges, e.Each (Expr.Bounded k (n + 1)))
    {globals : Registry} {b : Automaton} (hb : b ∈ m.automata)
    (hn : (b.normalize globals).Succeeds) :
    (Automaton.codec.encode (b.normalize globals).state).FitsAt limit 0 := by
  generalize ht : EventTable.ofAutomata (automataOf capacity charts) = t
  rw [automata_of_assemble h ht] at hb
  obtain ⟨c, hc, rfl⟩ := List.mem_map.1 hb
  obtain ⟨hall, -, hexpand, -⟩ := assemble_eq_ok_iff.1 h
  obtain ⟨a, ha⟩ := Option.isSome_iff_exists.1 (hall c hc)
  rw [ha, Option.getD_some] at hn ⊢
  have hsorted : t.Sorted := ht ▸ EventTable.sorted_ofAutomata _
  have hsucceeds : (((t.enabled a).pruned t.labels).expand Model.expansionCap).Succeeds := by
    apply Model.succeeds_expand.1 hexpand
    rw [s.automata_composed, ht]
    exact List.mem_map_of_mem (List.mem_filterMap.2 ⟨c, hc, ha⟩)
  -- nothing but the variables is changed before
  obtain ⟨-, -, locals, hreport, hcheck⟩ :=
    Chart.check_eq_ok_iff.1 (Chart.check_of_automaton? ha)
  obtain ⟨hsized, rfl⟩ := Attempt.toReport_eq_ok_iff.1 hreport
  have hsame : a.edges = c.automaton.edges := by rw [← hcheck]
  have hgrowth : a.growth = c.automaton.growth := by rw [← hcheck]; rfl
  refine Automaton.fitsAt_converted hlimit (hgrowth ▸ hroom c hc) ?_ (hsame ▸ hedges c hc)
    hsorted rfl hsucceeds hn
  rw [← hcheck]
  exact Registry.fitsAt_sizeArrays (by omega) (hlocals c hc) hsized

theorem depth_convert_le (h : (s.convert charts capacity properties).outcome = .ok m) {d : Nat}
    (hcharts : ∀ c ∈ charts, (Automaton.codec.encode c.automaton).depth + 1 ≤ max d 3)
    (hproperties : (Property.record.codec.list.encode properties).depth ≤ d) :
    (Model.codec.encode m).depth ≤ depthBound d charts properties := by
  obtain ⟨m₁, hassemble, hglobals, hnormalize, rfl⟩ := assembled_of_convert h
  obtain ⟨hone, hlist⟩ := Codec.fitsAt_list.1 (show Json.FitsAt d 0 _ from hproperties)
  have hseven : 7 ≤ depthBound d charts properties := le_max_left ..
  have hroom := add_one_le_depthBound d charts properties
  obtain ⟨properties', hsame⟩ := Model.state_normalize hnormalize
  apply Model.fitsAt hseven
  · rw [hsame]
    change (Registry.codec.encode m₁.globals).FitsAt _ 1
    rw [hglobals]
    exact Codec.fitsAt_list.2 ⟨by omega, List.forall_mem_nil _⟩
  · intro a ha
    rw [hsame] at ha
    obtain ⟨b, hb, rfl⟩ := List.mem_map.1 ha
    suffices hfits : (Automaton.codec.encode (b.normalize m₁.globals).state).FitsAt
        (depthBound d charts properties - 2) 0 from Nat.add_le_of_le_sub (by omega) hfits
    refine fitsAt_assembled (k := d - 1) (n := longestComparison charts properties - 1) hassemble
      (by omega) ?_ ?_ ?_ hb (Model.automata_of_normalize hnormalize b hb)
    · intro c hc
      have hgrowth := add_growth_le_depthBound d charts properties hc
      omega
    · intro c hc
      exact (Automaton.bounded_of_depth (hcharts c hc)).1.trans (by omega)
    · intro c hc e he
      have hlongest := compared_le_longest_of_chart charts properties hc
      exact ((Automaton.bounded_of_depth (hcharts c hc)).2 e he).mono fun _ _ _ hb =>
        hb.mono le_rfl (by omega)
  · intro p' hp'
    obtain ⟨hsucceeds, hstate⟩ := Model.properties_of_normalize hnormalize
    rw [hstate] at hp'
    obtain ⟨p, hp, rfl⟩ := List.mem_map.1 hp'
    have hlongest := compared_le_longest_of_property charts properties hp
    have hbounded : p.expression.Bounded d (longestComparison charts properties - 1 + 1) 2 :=
      ⟨Property.fitsAt_iff.1 (hlist p hp), hlongest.trans (by omega)⟩
    have hfits : _ + 2 ≤ _ := hbounded.normalizeProperty (hsucceeds p hp)
    change _ + 3 ≤ _
    omega

end Assembler

/-! ## Texts -/

/-- How deep the deepest of some texts is. -/
def deepestText (texts : List String) : Nat :=
  (texts.map fun text => (Node.ofText text).root.depth).max?.getD 0

theorem le_deepestText {texts : List String} {text : String} (h : text ∈ texts) :
    (Node.ofText text).root.depth ≤ deepestText texts :=
  List.le_max?_getD_of_mem (List.mem_map.2 ⟨text, h, rfl⟩)

theorem deepestText_le (texts : List String) : deepestText texts ≤ Node.maxDepth := by
  unfold deepestText
  cases hmax : (texts.map fun text => (Node.ofText text).root.depth).max? with
  | none => exact Nat.zero_le _
  | some d =>
    obtain ⟨hd, -⟩ := List.max?_eq_some_iff.1 hmax
    obtain ⟨text, -, rfl⟩ := List.mem_map.1 hd
    exact Node.depth_ofText_le text

theorem Chart.depth_of_ofText {locator text : String} {c : Chart}
    (h : (ofText locator text).outcome = .ok c) :
    (Automaton.codec.encode c.automaton).depth + 1 ≤ max (Node.ofText text).root.depth 3 := by
  rw [ofText, Report.outcome_map] at h
  obtain ⟨file, hfile, rfl⟩ := Except.map_eq_ok_iff.1 h
  have hfits : (ChartFile.record.codec.encode file).FitsAt
      (max (Node.ofText text).root.depth 3) 0 := ChartFile.shallow.ofText hfile
  rw [Record.fitsAt] at hfits
  simp only [ChartFile.record, Fields.fitAt_cons, Field.fitsAt_required] at hfits
  exact hfits.2.2.2.1

theorem depth_of_texts {files : List (String × String)} {charts : List Chart}
    (h : List.Forall₂ (fun file c => (Chart.ofText file.1 file.2).outcome = .ok c) files charts)
    {d : Nat} (hd : ∀ file ∈ files, (Node.ofText file.2).root.depth ≤ d) :
    ∀ c ∈ charts, (Automaton.codec.encode c.automaton).depth + 1 ≤ max d 3 := by
  induction h with
  | nil => exact List.forall_mem_nil _
  | cons hc _ ih =>
    obtain ⟨hfirst, hrest⟩ := List.forall_mem_cons.1 hd
    exact List.forall_mem_cons.2
      ⟨(Chart.depth_of_ofText hc).trans (max_le_max_right 3 hfirst), ih hrest⟩

/-- The texts that a model is written as: compact, pretty, and with a line end. -/
def Model.texts (m : Model) : List String :=
  [codec.text m, codec.pretty m, codec.pretty m ++ "\n"]

/-- Every text of a model shows all of it unless it is too deep, and then cannot be read. -/
theorem Model.ofText_texts {m : Model} {text : String} (h : text ∈ m.texts) :
    (Node.ofText text).trailing = false ∧
      Node.ShowsValue 0 (codec.encode m) (Node.ofText text).root := by
  have hempty : ∀ c ∈ "".toList, Json.isBlank c = true := by simp
  have hcompact := Node.ofText_write (codec.encode m) .compact hempty
  have hpretty := Node.ofText_write (codec.encode m) .pretty hempty
  rw [String.append_empty] at hcompact hpretty
  simp only [texts, List.mem_cons, List.not_mem_nil, or_false] at h
  rcases h with rfl | rfl | rfl
  · exact hcompact
  · exact hpretty
  · exact Node.ofText_write (codec.encode m) .pretty (by simp [Json.isBlank])

/-- A model is no deeper than the texts it is converted from, but for the levels that self-loops,
samples and comparisons add. Where these leave room, the reader does not run into its limit on any
text of the model: all of it is there, with each number as the reader takes its text. -/
theorem conversion_nests_within (s : Assembler) (files : List (String × String)) (list : String)
    (charts : List Chart) (properties : List Property) (capacity : Nat) (m : Model)
    (hcharts : List.Forall₂ (fun file c => (Chart.ofText file.1 file.2).outcome = .ok c)
      files charts)
    (hproperties : (Property.record.codec.list.ofText list).outcome = .ok properties)
    (h : (s.convert charts capacity properties).outcome = .ok m) :
    deepestText (list :: files.map (·.2)) ≤ Node.maxDepth ∧
    (Model.codec.encode m).depth ≤
      depthBound (deepestText (list :: files.map (·.2))) charts properties ∧
    (depthBound (deepestText (list :: files.map (·.2))) charts properties ≤ Node.maxDepth →
      ∀ text ∈ m.texts, Node.ofText text = ⟨(Model.codec.encode m).reread, false⟩) := by
  have hdepth : (Model.codec.encode m).depth ≤
      depthBound (deepestText (list :: files.map (·.2))) charts properties := by
    apply Assembler.depth_convert_le h
    · apply depth_of_texts hcharts
      intro file hfile
      exact le_deepestText (List.mem_cons_of_mem _ (List.mem_map_of_mem hfile))
    · have hlist := Property.shallow.list.ofText hproperties
      rw [Nat.max_zero] at hlist
      exact hlist.trans (le_deepestText List.mem_cons_self)
  refine ⟨deepestText_le _, hdepth, fun hbound text htext => ?_⟩
  obtain ⟨htrailing, hroot⟩ := Model.ofText_texts htext
  rw [← hroot.shallow (hdepth.trans hbound), ← htrailing]

/-! ## A flat statechart -/

/-- A statechart whose only edge compares an array with a zero and some more of them. -/
def zerosText (more : Nat) : String :=
  "\x7b\"name\":\"zeros\",\"automaton\":\x7b\"name\":\"zeros\"," ++
  "\"variables\":[\x7b\"name\":\"x\"," ++
  "\"type\":\x7b\"kind\":\"array\",\"base\":\"int\"\x7d," ++
  "\"initial-value\":\x7b\"op\":\"av\",\"elements\":[]\x7d\x7d]," ++
  "\"locations\":[\x7b\"name\":\"l\"\x7d],\"initial-locations\":[\"l\"]," ++
  "\"edges\":[\x7b\"location\":\"l\",\"destinations\":[],\"guard\":\x7b\"exp\":" ++
  "\x7b\"op\":\"=\",\"left\":\"x\",\"right\":\x7b\"op\":\"av\",\"elements\":[0" ++
  String.ofList (List.replicate more [',', '0']).flatten ++ "]\x7d\x7d\x7d\x7d]\x7d\x7d"

/-- How deep the model of a single statechart is, and how deep it may be. -/
def convertedDepth (list text : String) : Option (Nat × Nat) :=
  (Property.record.codec.list.ofText list).outcome.toOption.bind fun properties =>
    (Chart.ofText "zeros.json" text).outcome.toOption.bind fun c =>
      (Assembler.convert {} [c] 200 properties).outcome.toOption.map fun m =>
        ((Model.codec.encode m).depth, depthBound (deepestText [list, text]) [c] properties)

theorem exists_of_convertedDepth {list text : String} {depth bound : Nat}
    (h : convertedDepth list text = some (depth, bound)) :
    ∃ properties c m, (Property.record.codec.list.ofText list).outcome = .ok properties ∧
      (Chart.ofText "zeros.json" text).outcome = .ok c ∧
      (Assembler.convert {} [c] 200 properties).outcome = .ok m ∧
      (Model.codec.encode m).depth = depth ∧
      depthBound (deepestText [list, text]) [c] properties = bound := by
  simp only [convertedDepth, Option.bind_eq_some_iff, Option.map_eq_some_iff,
    Except.toOption_eq_some_iff, Prod.mk.injEq] at h
  obtain ⟨properties, hproperties, c, hc, m, hm, hdepth, hbound⟩ := h
  exact ⟨properties, c, m, hproperties, hc, hm, hdepth, hbound⟩

/-- The bound is reached. -/
theorem convertedDepth_zeros : convertedDepth "[]" (zerosText 118) = some (127, 127) ∧
    convertedDepth "[]" (zerosText 119) = some (128, 128) := by
  -- the texts are taken to lists of characters first, which is what can be evaluated
  delta zerosText
  simp only [convertedDepth, deepestText, Chart.ofText, Codec.ofText, Node.ofText, List.map,
    String.toList_append, String.toList_ofList, String.reduceToList]
  decide +kernel

/-- A comparison with 119 elements is just not too long. -/
theorem conversion_nests_within_zeros :
    ∃ properties c m, (Property.record.codec.list.ofText "[]").outcome = .ok properties ∧
      (Chart.ofText "zeros.json" (zerosText 118)).outcome = .ok c ∧
      (Assembler.convert {} [c] 200 properties).outcome = .ok m ∧
      (Model.codec.encode m).depth = 127 ∧
      ∀ text ∈ m.texts, Node.ofText text = ⟨(Model.codec.encode m).reread, false⟩ := by
  obtain ⟨properties, c, m, hproperties, hc, hm, hdepth, hbound⟩ :=
    exists_of_convertedDepth convertedDepth_zeros.1
  obtain ⟨-, -, hread⟩ := conversion_nests_within {} [("zeros.json", zerosText 118)] "[]" [c]
    properties 200 m (.cons hc .nil) hproperties hm
  exact ⟨properties, c, m, hproperties, hc, hm, hdepth, hread hbound.le⟩

/-- With one element more no text of the model can be read. -/
theorem zeros_too_deep :
    ∃ properties c m, (Property.record.codec.list.ofText "[]").outcome = .ok properties ∧
      (Chart.ofText "zeros.json" (zerosText 119)).outcome = .ok c ∧
      (Assembler.convert {} [c] 200 properties).outcome = .ok m ∧
      (Model.codec.encode m).depth = 128 ∧
      ∀ text ∈ m.texts, (Node.ofText text).root.readable = false := by
  obtain ⟨properties, c, m, hproperties, hc, hm, hdepth, -⟩ :=
    exists_of_convertedDepth convertedDepth_zeros.2
  refine ⟨properties, c, m, hproperties, hc, hm, hdepth, fun text htext => ?_⟩
  apply (Model.ofText_texts htext).2.deep
  rw [hdepth]
  decide

end AutomataNet
