import AutomataNet.Proofs.Nesting
/-!
# Levels of a document

Whether a document keeps within a limit of depth comes down to its parts, when each is given the
number of containers around it, its level. Of an automaton these are the variables and the
expressions on its edges (`Edge.Each`), and all else in a model is flat.
-/

namespace AutomataNet

/-! ## Codecs -/

namespace Json

variable {k level : Nat}

/-- With this many containers around it, the value keeps within the limit. -/
def FitsAt (k level : Nat) (j : Json) : Prop := j.depth + level ≤ k

@[simp] theorem fitsAt_str (s : String) : (str s).FitsAt k level ↔ level ≤ k := by
  simp [FitsAt, depth]

@[simp] theorem fitsAt_arr {items : List Json} :
    (arr items).FitsAt k level ↔ level + 1 ≤ k ∧ ∀ j ∈ items, j.FitsAt k (level + 1) := by
  unfold FitsAt
  rw [depth]
  constructor
  · intro h
    refine ⟨by omega, fun j hj => ?_⟩
    have hj := depthItems_le_iff.1 (show depthItems items ≤ k - (level + 1) by omega) j hj
    omega
  · rintro ⟨hlevel, hall⟩
    have hitems : depthItems items ≤ k - (level + 1) :=
      depthItems_le_iff.2 fun j hj => Nat.le_sub_of_add_le (hall j hj)
    omega

@[simp] theorem fitsAt_obj {fields : List (String × Json)} :
    (obj fields).FitsAt k level ↔ level + 1 ≤ k ∧ ∀ p ∈ fields, p.2.FitsAt k (level + 1) := by
  unfold FitsAt
  rw [depth]
  constructor
  · intro h
    refine ⟨by omega, fun p hp => ?_⟩
    have hp := depthFields_le_iff.1 (show depthFields fields ≤ k - (level + 1) by omega) p hp
    omega
  · rintro ⟨hlevel, hall⟩
    have hfields : depthFields fields ≤ k - (level + 1) :=
      depthFields_le_iff.2 fun p hp => Nat.le_sub_of_add_le (hall p hp)
    omega

end Json

section Codecs

variable {α ρ σ : Type} {c : Codec α} {k level : Nat}

/-- The field keeps within the limit, if it is written. -/
def Field.FitsAt (k level : Nat) (f : Field α) (a : α) : Prop := ∀ j ∈ f.write a, j.FitsAt k level

def Fields.FitAt (k level : Nat) (fs : Fields ρ σ) (row : ρ) : Prop :=
  ∀ p ∈ fs.write row, p.2.FitsAt k level

@[simp] theorem Fields.fitAt_nil (row : Unit) : Fields.nil.FitAt k level row :=
  List.forall_mem_nil _

@[simp] theorem Fields.fitAt_cons {f : Field α} {rest : Fields ρ σ} {a : α} {as : ρ} :
    (cons f rest).FitAt k level (a, as) ↔ f.FitsAt k level a ∧ rest.FitAt k level as :=
  forall_mem_write_cons (Q := Json.FitsAt k level)

@[simp] theorem Field.fitsAt_required {name : String} {a : α} :
    (required name c).FitsAt k level a ↔ (c.encode a).FitsAt k level := by
  simp [FitsAt, required]

@[simp] theorem Field.fitsAt_defaulted {name : String} {value a : α} :
    (defaulted name c value).FitsAt k level a ↔ (c.encode a).FitsAt k level := by
  simp [FitsAt, defaulted]

@[simp] theorem Field.fitsAt_optional {name : String} {x : Option α} :
    (optional name c).FitsAt k level x ↔ ∀ a ∈ x, (c.encode a).FitsAt k level := by
  simp [FitsAt, optional]

@[simp] theorem Field.fitsAt_comment {x : Option String} :
    comment.FitsAt k level x ↔ (x.isSome = true → level ≤ k) := by
  cases x <;> simp [comment, Codec.string]

@[simp] theorem Codec.fitsAt_list {xs : List α} : (c.list.encode xs).FitsAt k level ↔
    level + 1 ≤ k ∧ ∀ x ∈ xs, (c.encode x).FitsAt k (level + 1) := by
  simp [Codec.list]

@[simp] theorem Field.fitsAt_elidedList {name : String} {xs : List α} :
    (elidedList name c).FitsAt k level xs ↔ ∀ x ∈ xs, (c.encode x).FitsAt k (level + 1) := by
  cases xs with
  | nil => simp [FitsAt, elidedList, elided]
  | cons x xs =>
    have hwrite : (elidedList name c).write (x :: xs) = some (c.list.encode (x :: xs)) := rfl
    simp only [FitsAt, hwrite, Option.mem_def, Option.some.injEq, forall_eq', Codec.fitsAt_list,
      and_iff_right_iff_imp]
    intro h
    exact (Nat.le_add_left ..).trans (h x List.mem_cons_self)

theorem Record.fitsAt {r : Record α} {a : α} : (r.codec.encode a).FitsAt k level ↔
    level + 1 ≤ k ∧ r.fields.FitAt k (level + 1) (r.toRow a) :=
  Json.fitsAt_obj

end Codecs

/-! ## Edges -/

/-- The expression keeps within the limit. -/
def Expr.FitsAt (k level : Nat) (e : Expr) : Prop := e.toJson.FitsAt k level

theorem Expr.FitsAt.level_le {k level : Nat} {e : Expr} (h : e.FitsAt k level) : level ≤ k :=
  (Nat.le_add_left ..).trans h

/-- Where an expression fits, so does a comment beside it. -/
theorem Expr.fitsAt_beside_comment {e : Expr} {comment : Option String} {k level : Nat} :
    level ≤ k ∧ e.FitsAt k level ∧ (comment.isSome = true → level ≤ k) ↔ e.FitsAt k level :=
  ⟨fun h => h.2.1, fun h => ⟨h.level_le, h, fun _ => h.level_le⟩⟩

theorem Guard.fitsAt_iff {g : Guard} {k level : Nat} :
    (record.codec.encode g).FitsAt k level ↔ g.exp.FitsAt k (level + 1) := by
  rw [Record.fitsAt]
  simp only [record, Fields.fitAt_cons, Field.fitsAt_required, Field.fitsAt_comment,
    Fields.fitAt_nil, and_true]
  exact Expr.fitsAt_beside_comment

theorem Probability.fitsAt_iff {p : Probability} {k level : Nat} :
    (record.codec.encode p).FitsAt k level ↔ p.exp.FitsAt k (level + 1) := by
  rw [Record.fitsAt]
  simp only [record, Fields.fitAt_cons, Field.fitsAt_required, Field.fitsAt_comment,
    Fields.fitAt_nil, and_true]
  exact Expr.fitsAt_beside_comment

theorem Assignment.fitsAt_iff {a : Assignment} {k level : Nat} :
    (record.codec.encode a).FitsAt k level ↔
      a.target.FitsAt k (level + 1) ∧ a.value.FitsAt k (level + 1) := by
  rw [Record.fitsAt]
  simp only [record, Fields.fitAt_cons, Field.fitsAt_required, Field.fitsAt_comment,
    Fields.fitAt_nil, and_true]
  constructor
  · exact fun h => ⟨h.2.1, h.2.2.1⟩
  · rintro ⟨ht, hv⟩
    exact ⟨ht.level_le, ht, hv, fun _ => ht.level_le⟩

/-- All expressions of a destination have a property, which may depend on their level in the
automaton. -/
structure Destination.Each (P : Nat → Expr → Prop) (d : Destination) : Prop where
  weight : ∀ p ∈ d.probability, P 6 p.exp
  target : ∀ a ∈ d.assignments, P 7 a.target
  value : ∀ a ∈ d.assignments, P 7 a.value

/-- All expressions on an edge have a property, which may depend on their level in the automaton. -/
structure Edge.Each (P : Nat → Expr → Prop) (e : Edge) : Prop where
  guard : ∀ g ∈ e.guard, P 4 g.exp
  destinations : ∀ d ∈ e.destinations, d.Each P

theorem Destination.Each.mono {P Q : Nat → Expr → Prop} {d : Destination} (h : d.Each P)
    (hpq : ∀ level e, 4 ≤ level → P level e → Q level e) : d.Each Q where
  weight p hp := hpq _ _ (by decide) (h.weight p hp)
  target a ha := hpq _ _ (by decide) (h.target a ha)
  value a ha := hpq _ _ (by decide) (h.value a ha)

theorem Edge.Each.mono {P Q : Nat → Expr → Prop} {e : Edge} (h : e.Each P)
    (hpq : ∀ level e, 4 ≤ level → P level e → Q level e) : e.Each Q where
  guard g hg := hpq _ _ le_rfl (h.guard g hg)
  destinations d hd := (h.destinations d hd).mono hpq

theorem Destination.fitsAt_iff {d : Destination} {k : Nat} :
    (record.codec.encode d).FitsAt k 4 ↔ 5 ≤ k ∧ d.Each (Expr.FitsAt k) := by
  rw [Record.fitsAt]
  simp only [record, Fields.fitAt_cons, Field.fitsAt_required, Codec.string,
    Json.fitsAt_str, Field.fitsAt_optional, Probability.fitsAt_iff, Field.fitsAt_elidedList,
    Assignment.fitsAt_iff, Field.fitsAt_comment, Fields.fitAt_nil, and_true]
  constructor
  · rintro ⟨hk, -, hweight, hassign, -⟩
    exact ⟨hk, hweight, fun a ha => (hassign a ha).1, fun a ha => (hassign a ha).2⟩
  · rintro ⟨hk, hweight, htarget, hvalue⟩
    exact ⟨hk, hk, hweight, fun a ha => ⟨htarget a ha, hvalue a ha⟩, fun _ => hk⟩

theorem Edge.each_of_fitsAt {e : Edge} {k : Nat} (h : (record.codec.encode e).FitsAt k 2) :
    e.Each (Expr.FitsAt k) := by
  rw [Record.fitsAt] at h
  simp only [record, Fields.fitAt_cons, Field.fitsAt_required, Field.fitsAt_optional,
    Guard.fitsAt_iff, Codec.fitsAt_list] at h
  obtain ⟨-, -, -, hguard, ⟨-, hdest⟩, -⟩ := h
  exact ⟨hguard, fun d hd => (Destination.fitsAt_iff.1 (hdest d hd)).2⟩

theorem Edge.fitsAt_of_each {e : Edge} {k : Nat} (hk : 5 ≤ k) (h : e.Each (Expr.FitsAt k)) :
    (record.codec.encode e).FitsAt k 2 := by
  rw [Record.fitsAt]
  simp only [record, Fields.fitAt_cons, Field.fitsAt_required, Codec.string,
    Json.fitsAt_str, Field.fitsAt_optional, Guard.fitsAt_iff, Codec.fitsAt_list,
    Field.fitsAt_comment, Fields.fitAt_nil, and_true]
  exact ⟨by omega, by omega, fun _ _ => by omega, h.guard,
    ⟨by omega, fun d hd => Destination.fitsAt_iff.2 ⟨hk, h.destinations d hd⟩⟩, fun _ => by omega⟩

/-! ## Automata and models -/

theorem Location.fitsAt {l : Location} {k : Nat} (hk : 3 ≤ k) :
    (record.codec.encode l).FitsAt k 2 := by
  rw [Record.fitsAt]
  simp only [record, Fields.fitAt_cons, Field.fitsAt_required, Codec.string,
    Json.fitsAt_str, Field.fitsAt_comment, Fields.fitAt_nil, and_true]
  exact ⟨hk, hk, fun _ => hk⟩

namespace Automaton

theorem each_of_fitsAt {a : Automaton} {k : Nat} (h : (codec.encode a).FitsAt k 0) :
    (Registry.codec.encode a.locals).FitsAt k 1 ∧ ∀ e ∈ a.edges, e.Each (Expr.FitsAt k) := by
  rw [codec, Record.fitsAt] at h
  simp only [record, Fields.fitAt_cons, Field.fitsAt_required,
    Field.fitsAt_defaulted, Codec.fitsAt_list] at h
  obtain ⟨-, -, hlocals, -, -, ⟨-, hedges⟩, -⟩ := h
  exact ⟨hlocals, fun e he => Edge.each_of_fitsAt (hedges e he)⟩

theorem fitsAt_of_each {a : Automaton} {k : Nat} (hk : 5 ≤ k)
    (hlocals : (Registry.codec.encode a.locals).FitsAt k 1)
    (hedges : ∀ e ∈ a.edges, e.Each (Expr.FitsAt k)) : (codec.encode a).FitsAt k 0 := by
  rw [codec, Record.fitsAt]
  simp only [record, Fields.fitAt_cons, Field.fitsAt_required, Codec.string,
    Json.fitsAt_str, Field.fitsAt_defaulted, Codec.fitsAt_list, Field.fitsAt_comment,
    Fields.fitAt_nil, and_true]
  exact ⟨by omega, by omega, hlocals, ⟨by omega, fun l _ => Location.fitsAt (by omega)⟩,
    ⟨by omega, fun _ _ => by omega⟩,
    ⟨by omega, fun e he => Edge.fitsAt_of_each hk (hedges e he)⟩, fun _ => by omega⟩

end Automaton

/-- The vectors and elements of a network are flat. -/
theorem Composition.fitsAt {c : Composition} {k : Nat} (hk : 5 ≤ k) :
    (record.codec.encode c).FitsAt k 1 := by
  have hentry : ∀ x : Option String, (Codec.string.option.encode x).FitsAt k 5 := by
    intro x
    cases x <;> exact hk
  simp only [Record.fitsAt, record, Element.record, Sync.record, Fields.fitAt_cons,
    Field.fitsAt_required, Field.fitsAt_optional, Field.fitsAt_elidedList, Codec.fitsAt_list,
    Field.fitsAt_comment, Fields.fitAt_nil, and_true]
  refine ⟨by omega, ⟨by omega, fun e _ => ⟨by omega, ?_, fun s _ => hk⟩⟩, fun v _ => ?_,
    fun _ => by omega⟩
  · exact (Nat.le_of_succ_le hk : 4 ≤ k)
  · exact ⟨by omega, ⟨hk, fun x _ => hentry x⟩, fun s _ => (by omega : 4 ≤ k), fun _ => by omega⟩

theorem Property.fitsAt_iff {p : Property} {k level : Nat} :
    (record.codec.encode p).FitsAt k level ↔ p.expression.FitsAt k (level + 1) := by
  rw [Record.fitsAt]
  simp only [record, Fields.fitAt_cons, Field.fitsAt_required, Codec.string,
    Json.fitsAt_str, Field.fitsAt_comment, Fields.fitAt_nil, and_true]
  constructor
  · exact fun h => h.2.2.1
  · intro h
    exact ⟨h.level_le, h.level_le, h, fun _ => h.level_le⟩

theorem Model.fitsAt {m : Model} {k : Nat} (hk : 7 ≤ k)
    (hglobals : (Registry.codec.encode m.globals).FitsAt k 1)
    (hautomata : ∀ a ∈ m.automata, (Automaton.codec.encode a).FitsAt k 2)
    (hproperties : ∀ p ∈ m.properties, p.expression.FitsAt k 3) :
    (codec.encode m).FitsAt k 0 := by
  have hflat : ∀ (level : Nat) (s : String), level ≤ 7 → (Json.str s).FitsAt k level := by
    intro level s hlevel
    exact Json.fitsAt_str s |>.2 (hlevel.trans hk)
  rw [codec, Record.fitsAt]
  simp only [record, Fields.fitAt_cons, Field.fitsAt_required,
    Field.fitsAt_defaulted, Codec.fitsAt_list, Fields.fitAt_nil, and_true]
  refine ⟨by omega, ?_, hflat 1 _ (by decide), hflat 1 _ (by decide),
    ⟨by omega, fun f _ => hflat 2 _ (by decide)⟩, ⟨by omega, fun x _ => ?_⟩, hglobals,
    ⟨by omega, hautomata⟩, Composition.fitsAt (by omega),
    ⟨by omega, fun p hp => Property.fitsAt_iff.2 (hproperties p hp)⟩⟩
  · exact (by omega : 1 ≤ k)
  · rw [Record.fitsAt]
    simp only [Action.record, Fields.fitAt_cons, Field.fitsAt_required, Field.fitsAt_comment,
      Fields.fitAt_nil, and_true]
    exact ⟨by omega, hflat 3 _ (by decide), fun _ => by omega⟩

end AutomataNet
