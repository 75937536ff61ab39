import AutomataNet.Chart
import AutomataNet.Model.Normalization
import AutomataNet.Proofs.Declarations
import AutomataNet.Proofs.NormalForm
/-!
# Other comments on the same expressions

A relabeling changes the comments of expressions and nothing else. It is applied to everything that
holds expressions, and it commutes with the operations on these, which look past comments: equality,
lookups, and the way into normal form (`Expr.normalize_relabel`, `Model.normalize_relabel`).
-/

namespace AutomataNet

/-! ## All expressions of a model -/

section

variable (f : Expr → Expr)

def VarType.mapExprs : VarType → VarType
  | .basic t => .basic t
  | .bounded base lower upper => .bounded base (lower.map f) (upper.map f)
  | .array base => .array base.mapExprs

@[simps]
def Variable.mapExprs (v : Variable) : Variable :=
  { v with type := v.type.mapExprs f, initial := v.initial.map f }

@[simps!]
def Registry.mapExprs (r : Registry) : Registry :=
  r.withVars (r.vars.map (·.mapExprs f)) (List.map_map ..)

def Scope.mapExprs (s : Scope) : Scope where
  locals := s.locals.map (·.mapExprs f)
  globals := s.globals.mapExprs f

@[simps]
def Guard.mapExprs (g : Guard) : Guard := { g with exp := f g.exp }

@[simps]
def Probability.mapExprs (p : Probability) : Probability := { p with exp := f p.exp }

@[simps]
def Assignment.mapExprs (a : Assignment) : Assignment :=
  { a with target := f a.target, value := f a.value }

@[simps]
def Destination.mapExprs (d : Destination) : Destination :=
  { d with
    probability := d.probability.map (·.mapExprs f)
    assignments := d.assignments.map (·.mapExprs f) }

@[simps]
def Edge.mapExprs (e : Edge) : Edge :=
  { e with
    guard := e.guard.map (·.mapExprs f)
    destinations := e.destinations.map (·.mapExprs f) }

@[simps]
def Automaton.mapExprs (a : Automaton) : Automaton :=
  { a with locals := a.locals.mapExprs f, edges := a.edges.map (·.mapExprs f) }

@[simps]
def Property.mapExprs (p : Property) : Property := { p with expression := f p.expression }

@[simps]
def Model.mapExprs (m : Model) : Model :=
  { m with
    globals := m.globals.mapExprs f
    automata := m.automata.map (·.mapExprs f)
    properties := m.properties.map (·.mapExprs f) }

@[simps]
def Chart.mapExprs (c : Chart) : Chart := { c with automaton := c.automaton.mapExprs f }

end

/-! ## Relabelings -/

/-- A change of comments. Where there is none, there stays none. -/
structure Relabeling where
  /-- For literals and identifiers. -/
  leaf : Option String → Option String
  /-- For operators, array values and distributions. -/
  node : Option String → Option String
  leaf_none : leaf none = none := by rfl
  node_none : node none = none := by rfl

/-- Removes all comments. -/
def Relabeling.erase : Relabeling where
  leaf _ := none
  node _ := none

/-- Removes the comments for which the written form has no room. -/
def Relabeling.eraseLeaves : Relabeling where
  leaf _ := none
  node c := c

namespace Expr

variable (ρ : Relabeling)

mutual

def relabel : Expr → Expr
  | .literal v c => .literal v (ρ.leaf c)
  | .identifier name c => .identifier name (ρ.leaf c)
  | .operator op operands c => .operator op (relabelOperands operands) (ρ.node c)
  | .arrayValue elements c => .arrayValue (relabelList elements) (ρ.node c)
  | .distribution name args c => .distribution name (relabelList args) (ρ.node c)

def relabelList : List Expr → List Expr
  | [] => []
  | e :: es => relabel e :: relabelList es

def relabelOperands : List (String × Expr) → List (String × Expr)
  | [] => []
  | (role, e) :: es => (role, relabel e) :: relabelOperands es

end

theorem relabelList_eq (es : List Expr) : relabelList ρ es = es.map (relabel ρ) := by
  induction es with
  | nil => rfl
  | cons e es ih => rw [relabelList, ih, List.map_cons]

theorem relabelOperands_eq (es : List (String × Expr)) :
    relabelOperands ρ es = es.map fun p => (p.1, p.2.relabel ρ) := by
  induction es with
  | nil => rfl
  | cons e es ih => rw [relabelOperands, ih, List.map_cons]

/-! ## Looking past comments -/

@[simp] theorem literal?_relabel (e : Expr) : (e.relabel ρ).literal? = e.literal? := by
  cases e <;> rfl

@[simp] theorem isArrayValue_relabel (e : Expr) : (e.relabel ρ).isArrayValue = e.isArrayValue := by
  cases e <;> rfl

@[simp] theorem isTrue_relabel (e : Expr) : (e.relabel ρ).isTrue = e.isTrue := by
  cases e with
  | literal v c =>
    cases v with
    | bool b => cases b <;> rfl
    | int | real | constant => rfl
  | identifier | operator | arrayValue | distribution => rfl

theorem elements_relabel (e : Expr) : (e.relabel ρ).elements = e.elements.map (relabel ρ) := by
  cases e with
  | arrayValue es c => exact relabelList_eq ρ es
  | literal | identifier | operator | distribution => rfl

mutual

theorem same_relabel : ∀ x y : Expr, (x.relabel ρ).same (y.relabel ρ) = x.same y
  | .operator op xs _, .operator op' ys _ => by
    simp only [relabel, same, sameOperands_relabel xs ys]
  | .arrayValue xs _, .arrayValue ys _ => by simp only [relabel, same, sameList_relabel xs ys]
  | .distribution n xs _, .distribution m ys _ => by
    simp only [relabel, same, sameList_relabel xs ys]
  | .literal .., .literal .. | .identifier .., .identifier .. => rfl
  | .literal .., .identifier .. | .literal .., .operator .. | .literal .., .arrayValue ..
  | .literal .., .distribution .. | .identifier .., .literal .. | .identifier .., .operator ..
  | .identifier .., .arrayValue .. | .identifier .., .distribution .. | .operator .., .literal ..
  | .operator .., .identifier .. | .operator .., .arrayValue .. | .operator .., .distribution ..
  | .arrayValue .., .literal .. | .arrayValue .., .identifier .. | .arrayValue .., .operator ..
  | .arrayValue .., .distribution .. | .distribution .., .literal ..
  | .distribution .., .identifier .. | .distribution .., .operator ..
  | .distribution .., .arrayValue .. => rfl

theorem sameList_relabel : ∀ xs ys : List Expr,
    sameList (relabelList ρ xs) (relabelList ρ ys) = sameList xs ys
  | [], [] | [], _ :: _ | _ :: _, [] => rfl
  | x :: xs, y :: ys => by
    simp only [relabelList, sameList, same_relabel x y, sameList_relabel xs ys]

theorem sameOperands_relabel : ∀ xs ys : List (String × Expr),
    sameOperands (relabelOperands ρ xs) (relabelOperands ρ ys) = sameOperands xs ys
  | [], [] | [], _ :: _ | _ :: _, [] => rfl
  | (_, x) :: xs, (_, y) :: ys => by
    simp only [relabelOperands, sameOperands, same_relabel x y, sameOperands_relabel xs ys]

end

/-! Nodes without a comment stay without. -/

@[simp] theorem relabel_lit (v : Value) : (lit v).relabel ρ = lit v :=
  congrArg (literal v) ρ.leaf_none

@[simp] theorem relabel_ofInt (n : Int64) : (ofInt n).relabel ρ = ofInt n := relabel_lit ρ _

@[simp] theorem relabel_var (name : String) : (var name).relabel ρ = var name :=
  congrArg (identifier name) ρ.leaf_none

@[simp] theorem relabel_binary (op : Op) (l r : Expr) :
    (binary op l r).relabel ρ = binary op (l.relabel ρ) (r.relabel ρ) :=
  congrArg (operator op [("left", l.relabel ρ), ("right", r.relabel ρ)]) ρ.node_none

@[simp] theorem relabel_neg (e : Expr) : (neg e).relabel ρ = neg (e.relabel ρ) :=
  congrArg (operator .not [("exp", e.relabel ρ)]) ρ.node_none

@[simp] theorem relabel_access (array index : Expr) :
    (access array index).relabel ρ = access (array.relabel ρ) (index.relabel ρ) :=
  congrArg (operator .arrayAccess [("exp", array.relabel ρ), ("index", index.relabel ρ)])
    ρ.node_none

end Expr

theorem comparison_relabel (ρ : Relabeling) (array : String) (elements : List Expr) :
    (comparison array elements).relabel ρ = comparison array (elements.map (·.relabel ρ)) := by
  unfold comparison
  rw [List.length_map, List.zipIdx_map, List.foldl_map]
  have hlength : (Expr.equal (.var (lengthName array 1))
      (.ofInt (Int64.ofNat elements.length))).relabel ρ =
      .equal (.var (lengthName array 1)) (.ofInt (Int64.ofNat elements.length)) := by
    simp [Expr.equal]
  conv_rhs => rw [← hlength]
  refine (List.foldl_hom (Expr.relabel ρ) ?_).symm
  intro e p
  simp [Expr.conj, Expr.equal]

/-! ## Variables -/

section

variable (f : Expr → Expr)

@[simp] theorem VarType.isArray_mapExprs (t : VarType) : (t.mapExprs f).isArray = t.isArray := by
  cases t <;> rfl

@[simp] theorem VarType.dimensions_mapExprs (t : VarType) :
    (t.mapExprs f).dimensions = t.dimensions := by
  induction t with
  | basic | bounded => rfl
  | array base ih => rw [mapExprs, dimensions, ih, dimensions]

@[simp] theorem Variable.isArray_mapExprs (v : Variable) : (v.mapExprs f).isArray = v.isArray :=
  VarType.isArray_mapExprs f v.type

theorem Registry.find?_mapExprs (r : Registry) (name : String) :
    (r.mapExprs f).find? name = (r.find? name).map (·.mapExprs f) :=
  Registry.find?_withVars_map _ name

@[simp] theorem Registry.contains_mapExprs (r : Registry) (name : String) :
    (r.mapExprs f).contains name = r.contains name := rfl

theorem Scope.find?_mapExprs (s : Scope) (name : String) :
    (s.mapExprs f).find? name = (s.find? name).map (·.mapExprs f) := by
  unfold Scope.find? Scope.mapExprs
  cases s.locals with
  | none => simp [Registry.find?_mapExprs]
  | some r => simp only [Option.map_some, Option.bind_some, Registry.find?_mapExprs, Option.map_or]

end

/-! ## Normal forms -/

/-- What a normal form depends on: whether a name is that of an array, and its capacities. -/
def Scope.shape? (s : Scope) (name : String) : Option (Bool × Option (List Nat)) :=
  (s.find? name).map fun v => (v.isArray, v.capacities)

theorem Scope.shape?_mapExprs (f : Expr → Expr) (s : Scope) : (s.mapExprs f).shape? = s.shape? := by
  funext name
  rw [shape?, find?_mapExprs, Option.map_map, shape?]
  congr 1
  funext v
  exact congrArg (·, v.capacities) (v.isArray_mapExprs f)

def Sides.relabel (ρ : Relabeling) (s : Sides) : Sides :=
  { s with elements := s.elements.map (List.map (·.relabel ρ)) }

section

variable {scope scope' : Scope} (hs : scope'.shape? = scope.shape?) (ρ : Relabeling)

include hs

theorem checkArray_of_shape? (name : String) :
    Sides.checkArray scope' name = Sides.checkArray scope name := by
  have hname := congrFun hs name
  have hlength := congrArg Option.isNone (congrFun hs (lengthName name 1))
  simp only [Scope.shape?, Option.isNone_map] at hname hlength
  unfold Sides.checkArray
  rw [hlength]
  cases hv : scope.find? name with
  | none =>
    rw [hv, Option.map_none, Option.map_eq_none_iff] at hname
    rw [hname]
  | some v =>
    rw [hv, Option.map_some] at hname
    obtain ⟨v', hv', he⟩ := Option.map_eq_some_iff.1 hname
    obtain ⟨harray, hcapacities⟩ := Prod.mk.inj he
    rw [hv']
    simp only [harray, hcapacities]

theorem collect_relabel (sides : Sides) (operands : List (String × Expr)) :
    Sides.collect scope' (sides.relabel ρ) (Expr.relabelOperands ρ operands) =
      Sides.relabel ρ <$> Sides.collect scope sides operands := by
  induction operands generalizing sides with
  | nil => rfl
  | cons p operands ih =>
    obtain ⟨role, e⟩ := p
    cases e with
    | literal | operator | distribution => rfl
    | identifier name c =>
      simp only [Expr.relabelOperands, Expr.relabel, Sides.collect, checkArray_of_shape? hs]
      cases Sides.checkArray scope name with
      | error e => rfl
      | ok _ =>
        cases harray : sides.array with
        | some _ => simp [Sides.relabel, harray, bind, Except.bind, Functor.map, Except.map]
        | none =>
          simpa [Sides.relabel, harray, bind, Except.bind] using
            ih { sides with array := some name }
    | arrayValue es c =>
      simp only [Expr.relabelOperands, Expr.relabel, Sides.collect]
      cases helements : sides.elements with
      | some _ => simp [Sides.relabel, helements, Functor.map, Except.map]
      | none =>
        simpa [Sides.relabel, helements, Expr.relabelList_eq] using
          ih { sides with elements := some es }

/-- A comparison looks the same with other comments on its operands. -/
theorem expandComparison_relabel (operands : List (String × Expr)) :
    expandComparison scope' (Expr.relabelOperands ρ operands) =
      Expr.relabel ρ <$> expandComparison scope operands := by
  have hcollect := collect_relabel hs ρ {} operands
  rw [expandComparison, show ({} : Sides) = Sides.relabel ρ {} from rfl, hcollect, expandComparison]
  cases Sides.collect scope {} operands with
  | error e => rfl
  | ok sides =>
    obtain ⟨array, elements⟩ := sides
    cases array with
    | none => cases elements <;> rfl
    | some array =>
      cases elements with
      | none => rfl
      | some elements =>
        have hliterals : (elements.map (·.relabel ρ)).all (·.literal?.isSome) =
            elements.all (·.literal?.isSome) := by simp [List.all_map, Function.comp_def]
        show (if (elements.map (·.relabel ρ)).all (·.literal?.isSome) then _ else _) =
          Expr.relabel ρ <$> (if elements.all (·.literal?.isSome) then _ else _)
        rw [hliterals]
        split
        · rw [Report.map_bind, List.length_map, Report.map_pure, comparison_relabel]
        · rfl

end

namespace Expr

/-- A replaced comparison hands on its comment. -/
theorem withComment_expandComparison (scope : Scope) (ρ : Relabeling)
    (operands : List (String × Expr)) (c : Option String) :
    (·.withComment (ρ.node c)) <$> relabel ρ <$> expandComparison scope operands =
      relabel ρ <$> (·.withComment c) <$> expandComparison scope operands := by
  simp only [Report.map_eq]
  congr 1
  cases h : (expandComparison scope operands).outcome with
  | error e => rfl
  | ok e =>
    obtain ⟨array, elements, -, -, -, -, rfl⟩ := expandComparison_eq_ok_iff.1 h
    obtain ⟨op, operands', c', hop⟩ := comparison_isOperator array elements
    rw [hop]
    rfl

section

variable {scope scope' : Scope} (hs : scope'.shape? = scope.shape?) (ρ : Relabeling)

include hs

theorem isArray_relabel (e : Expr) : (e.relabel ρ).isArray scope' = e.isArray scope := by
  cases e with
  | identifier name c =>
    have h := congrArg (Option.any (·.1)) (congrFun hs name)
    simp only [Scope.shape?, Option.any_map] at h
    exact h
  | literal | operator | arrayValue | distribution => rfl

theorem hasArrayOperand_relabel (op : Op) (operands : List (String × Expr)) :
    hasArrayOperand scope' op (relabelOperands ρ operands) = hasArrayOperand scope op operands := by
  rw [hasArrayOperand, relabelOperands_eq, List.any_map, hasArrayOperand]
  congr 1
  funext p
  simp only [Function.comp_apply, isArray_relabel hs]

end

variable {scope scope' : Scope}

mutual

/-- Normal forms do not depend on comments, and keep them. -/
theorem normalize_relabel (hs : scope'.shape? = scope.shape?) (ρ : Relabeling) :
    ∀ e : Expr, (e.relabel ρ).normalize scope' = relabel ρ <$> e.normalize scope
  | .literal .. | .identifier .. | .arrayValue .. => rfl
  | .distribution name args c => by
    rw [relabel, normalize, normalizeList_relabel hs ρ args, normalize, Report.bind_map,
      Report.map_bind]
    rfl
  | .operator op operands c => by
    rw [relabel, normalize, normalize, hasArrayOperand_relabel hs]
    split
    · split
      · rw [expandComparison_relabel hs, withComment_expandComparison]
      · rfl
    · rw [normalizeOperands_relabel hs ρ operands, Report.bind_map, Report.map_bind]
      rfl

theorem normalizeList_relabel (hs : scope'.shape? = scope.shape?) (ρ : Relabeling) :
    ∀ es : List Expr,
      normalizeList scope' (relabelList ρ es) = relabelList ρ <$> normalizeList scope es
  | [] => rfl
  | e :: es => by
    simp only [relabelList, normalizeList, normalize_relabel hs ρ e, normalizeList_relabel hs ρ es,
      Report.bind_map, Report.map_bind, Report.map_pure]

theorem normalizeOperands_relabel (hs : scope'.shape? = scope.shape?) (ρ : Relabeling) :
    ∀ es : List (String × Expr), normalizeOperands scope' (relabelOperands ρ es) =
      relabelOperands ρ <$> normalizeOperands scope es
  | [] => rfl
  | (role, e) :: es => by
    simp only [relabelOperands, normalizeOperands, normalize_relabel hs ρ e,
      normalizeOperands_relabel hs ρ es, Report.bind_map, Report.map_bind, Report.map_pure]

end

end Expr

/-- The top operator of a property is kept, whatever its comment. -/
theorem Property.normalizeExpr_relabel {scope scope' : Scope} (hs : scope'.shape? = scope.shape?)
    (ρ : Relabeling) (e : Expr) :
    normalizeExpr scope' (e.relabel ρ) = Expr.relabel ρ <$> normalizeExpr scope e := by
  cases e with
  | operator op operands c =>
    simp only [Expr.relabel, normalizeExpr, Expr.normalizeOperands_relabel hs, Report.bind_map,
      Report.map_bind, Report.map_pure]
  | literal | identifier | arrayValue | distribution => exact Expr.normalize_relabel hs ρ _

/-! ## Models -/

variable (ρ : Relabeling)

section

variable {scope scope' : Scope} (hs : scope'.shape? = scope.shape?)

include hs

theorem Guard.normalize_relabel (g : Guard) :
    (g.mapExprs (.relabel ρ)).normalize scope' =
      (g.normalize scope).mapState (·.mapExprs (.relabel ρ)) := by
  unfold Guard.normalize
  rw [Guard.mapExprs_exp, Attempt.replace_map (Expr.normalize_relabel hs ρ g.exp)]
  rfl

theorem Probability.normalize_relabel (p : Probability) :
    (p.mapExprs (.relabel ρ)).normalize scope' =
      (p.normalize scope).mapState (·.mapExprs (.relabel ρ)) := by
  unfold Probability.normalize
  rw [Probability.mapExprs_exp, Attempt.replace_map (Expr.normalize_relabel hs ρ p.exp)]
  rfl

theorem Assignment.normalize_relabel (a : Assignment) :
    (a.mapExprs (.relabel ρ)).normalize scope' =
      (a.normalize scope).mapState (·.mapExprs (.relabel ρ)) := by
  unfold Assignment.normalize
  rw [Assignment.mapExprs_value, Attempt.replace_map (Expr.normalize_relabel hs ρ a.value)]
  rfl

theorem Destination.normalize_relabel (d : Destination) :
    (d.mapExprs (.relabel ρ)).normalize scope' =
      (d.normalize scope).mapState (·.mapExprs (.relabel ρ)) := by
  have hprobability : (d.mapExprs (.relabel ρ)).normalizeProbability scope' =
      (d.normalizeProbability scope).mapState (·.mapExprs (.relabel ρ)) :=
    congrArg (Attempt.mapState _)
      (Attempt.onOption_map (Probability.normalize_relabel ρ hs) d.probability)
  have hassignments (d : Destination) : (d.mapExprs (.relabel ρ)).normalizeAssignments scope' =
      (d.normalizeAssignments scope).mapState (·.mapExprs (.relabel ρ)) :=
    congrArg (fun x => (Attempt.mapState _ x).mapResult _)
      (Attempt.onEach_map (Assignment.normalize_relabel ρ hs) d.assignments)
  unfold Destination.normalize
  rw [hprobability]
  exact Attempt.mapState_andThen (fun d _ => hassignments d) _

theorem Edge.normalize_relabel (e : Edge) :
    (e.mapExprs (.relabel ρ)).normalize scope' =
      (e.normalize scope).mapState (·.mapExprs (.relabel ρ)) := by
  have hguard : (e.mapExprs (.relabel ρ)).normalizeGuard scope' =
      (e.normalizeGuard scope).mapState (·.mapExprs (.relabel ρ)) :=
    congrArg (Attempt.mapState _) (Attempt.onOption_map (Guard.normalize_relabel ρ hs) e.guard)
  have hdestinations (e : Edge) : (e.mapExprs (.relabel ρ)).normalizeDestinations scope' =
      (e.normalizeDestinations scope).mapState (·.mapExprs (.relabel ρ)) :=
    congrArg (fun x => (Attempt.mapState _ x).mapResult _)
      (Attempt.onEach_map (Destination.normalize_relabel ρ hs) e.destinations)
  unfold Edge.normalize
  rw [hguard]
  exact Attempt.mapState_andThen (fun e _ => hdestinations e) _

end

theorem Automaton.normalize_relabel (globals : Registry) (a : Automaton) :
    (a.mapExprs (.relabel ρ)).normalize (globals.mapExprs (.relabel ρ)) =
      (a.normalize globals).mapState (·.mapExprs (.relabel ρ)) := by
  have hs : Scope.shape? ⟨some (a.locals.mapExprs (.relabel ρ)), globals.mapExprs (.relabel ρ)⟩ =
      Scope.shape? ⟨some a.locals, globals⟩ :=
    Scope.shape?_mapExprs (.relabel ρ) ⟨a.locals, globals⟩
  exact congrArg (fun x => ((Attempt.mapState _ x).mapResult _).mapError _)
    (Attempt.onEach_map (Edge.normalize_relabel ρ hs) a.edges)

theorem Property.normalize_relabel (globals : Registry) (p : Property) :
    (p.mapExprs (.relabel ρ)).normalize (globals.mapExprs (.relabel ρ)) =
      (p.normalize globals).mapState (·.mapExprs (.relabel ρ)) := by
  have hs : Scope.shape? ⟨none, globals.mapExprs (.relabel ρ)⟩ = Scope.shape? ⟨none, globals⟩ :=
    Scope.shape?_mapExprs (.relabel ρ) ⟨none, globals⟩
  exact congrArg (fun x => (Attempt.mapState _ x).mapError _)
    (Attempt.replace_map (Property.normalizeExpr_relabel hs ρ p.expression))

theorem Model.normalize_relabel (m : Model) :
    (m.mapExprs (.relabel ρ)).normalize = m.normalize.mapState (·.mapExprs (.relabel ρ)) := by
  have hautomata : (m.mapExprs (.relabel ρ)).normalizeAutomata =
      m.normalizeAutomata.mapState (·.mapExprs (.relabel ρ)) :=
    congrArg (fun x => (Attempt.mapState _ x).mapResult _)
      (Attempt.onEach_map (Automaton.normalize_relabel ρ m.globals) m.automata)
  have hproperties (m : Model) : (m.mapExprs (.relabel ρ)).normalizeProperties =
      m.normalizeProperties.mapState (·.mapExprs (.relabel ρ)) :=
    congrArg (fun x => (Attempt.mapState _ x).mapResult _)
      (Attempt.onEach_map (Property.normalize_relabel ρ m.globals) m.properties)
  unfold Model.normalize
  rw [hautomata]
  exact congrArg (Attempt.after _) (Attempt.mapState_andThen (fun m _ => hproperties m) _)

end AutomataNet
