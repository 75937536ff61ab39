import AutomataNet.Chart
import AutomataNet.Model.Basic
import AutomataNet.Proofs.Declarations
import AutomataNet.Proofs.Depth
import AutomataNet.Proofs.RoundTrip
/-!
# What is read is written no deeper

A document is written as deep as it was read, or less: unknown fields are gone, and so is what a
repeated field held before. It gets deeper only where a field that is missing is written all the
same, and then it is as deep as the default (`Codec.Shallow`).
-/

namespace AutomataNet

/-! ## Expressions -/

namespace Node

theorem depth_of_mem_setField {key : String} {value : Json} {fields : List (String × Json)}
    {k : Nat} (hv : value.depth ≤ k) (hf : ∀ p ∈ fields, p.2.depth ≤ k) :
    ∀ p ∈ setField key value fields, p.2.depth ≤ k := by
  induction fields with
  | nil =>
    rw [setField, List.forall_mem_singleton]
    exact hv
  | cons f fields ih =>
    obtain ⟨hfirst, hrest⟩ := List.forall_mem_cons.1 hf
    rw [setField]
    split
    · exact List.forall_mem_cons.2 ⟨hv, hrest⟩
    · exact List.forall_mem_cons.2 ⟨hfirst, ih hrest⟩

mutual

theorem depth_toJson? : ∀ {n : Node} {j : Json}, n.toJson? = some j → j.depth ≤ n.depth
  | .null, _, h => by cases h; exact le_rfl
  | .bool _, _, h => by cases h; exact le_rfl
  | .num _, _, h => by cases h; exact le_rfl
  | .str _, _, h => by cases h; exact le_rfl
  | .unreadable _, _, h => by cases h
  | .arr items, _, h => by
    obtain ⟨js, hjs, rfl⟩ := Option.map_eq_some_iff.1 h
    exact Nat.succ_le_succ (depth_toJsonItems? hjs)
  | .obj fields, _, h => by
    obtain ⟨fs, hfs, rfl⟩ := Option.map_eq_some_iff.1 h
    exact Nat.succ_le_succ
      (Json.depthFields_le_iff.2 (depth_toJsonFields? hfs le_rfl (List.forall_mem_nil _)))

theorem depth_toJsonItems? : ∀ {ns : List Node} {js : List Json},
    toJsonItems? ns = some js → Json.depthItems js ≤ depthItems ns
  | [], _, h => by cases h; exact le_rfl
  | n :: ns, _, h => by
    obtain ⟨j, hj, h⟩ := Option.bind_eq_some_iff.1 h
    obtain ⟨js, hjs, h⟩ := Option.bind_eq_some_iff.1 h
    obtain rfl := Option.some.inj h
    exact max_le_max (depth_toJson? hj) (depth_toJsonItems? hjs)

theorem depth_toJsonFields? : ∀ {fs : List (Option String × Node)} {seen js : List (String × Json)}
    {k : Nat}, toJsonFields? seen fs = some js → depthFields fs ≤ k →
      (∀ p ∈ seen, p.2.depth ≤ k) → ∀ p ∈ js, p.2.depth ≤ k
  | [], _, _, _, h, _, hseen => by
    obtain rfl := Option.some.inj h
    exact hseen
  | (none, _) :: _, _, _, _, h, _, _ => by cases h
  | (some key, n) :: fs, _, _, _, h, hfs, hseen => by
    obtain ⟨hn, hfs⟩ := max_le_iff.1 hfs
    obtain ⟨j, hj, h⟩ := Option.bind_eq_some_iff.1 h
    exact depth_toJsonFields? h hfs (depth_of_mem_setField ((depth_toJson? hj).trans hn) hseen)

end

end Node

namespace Expr

theorem depthFields_append_commentField (fs : List (String × Json)) (c : Option String) :
    Json.depthFields (fs ++ commentField c) = Json.depthFields fs := by
  induction fs with
  | nil => cases c <;> rfl
  | cons f fs ih => simp [Json.depthFields, ih]

theorem depth_toJson_operator (op : Op) (operands : List (String × Expr)) (c : Option String) :
    (toJson (.operator op operands c)).depth = Json.depthFields (operandsToJson operands) + 1 := by
  simp [toJson, Json.depth, Json.depthFields, depthFields_append_commentField]

theorem depth_toJson_arrayValue (elements : List Expr) (c : Option String) :
    (toJson (.arrayValue elements c)).depth = Json.depthItems (listToJson elements) + 2 := by
  cases c <;> simp [toJson, Json.depth, Json.depthFields, commentField]

theorem depth_toJson_distribution (name : String) (args : List Expr) (c : Option String) :
    (toJson (.distribution name args c)).depth = Json.depthItems (listToJson args) + 2 := by
  cases c <;> simp [toJson, Json.depth, Json.depthFields, commentField]

mutual

theorem depth_ofJson : ∀ {j : Json} {e : Expr}, ofJson j = .ok e → e.toJson.depth ≤ j.depth
  | .null, _, h => by cases h
  | .arr _, _, h => by cases h
  | .bool _, _, h => by cases h; exact le_rfl
  | .str _, _, h => by cases h; exact le_rfl
  | .num n, _, h => by
    obtain rfl := Except.ok.inj h
    cases n with
    | real x => exact le_rfl
    | int z =>
      simp only [lit, toJson, ofNumber]
      split <;> exact le_rfl
  | .obj fields, e, h => by
    obtain ⟨x, -, hsel⟩ := ofJson_obj_eq_ok_iff.1 h
    cases hsel with
    | constant =>
      exact Nat.succ_le_succ (Nat.zero_le _)
    | distribution _ _ ha =>
      rw [depth_toJson_distribution]
      exact Nat.succ_le_succ (depth_listOfField ha)
    | arrayValue _ _ _ he =>
      rw [depth_toJson_arrayValue]
      exact Nat.succ_le_succ (depth_listOfField he)
    | operator _ _ _ _ _ hf =>
      rw [depth_toJson_operator]
      exact Nat.succ_le_succ (depth_operandsOfFields hf)

theorem depth_listOfJson : ∀ {js : List Json} {es : List Expr}, listOfJson js = .ok es →
    Json.depthItems (listToJson es) ≤ Json.depthItems js
  | [], _, h => by cases h; exact le_rfl
  | j :: js, _, h => by
    obtain ⟨e, he, h⟩ := Except.bind_eq_ok_iff.1 h
    obtain ⟨es, hes, h⟩ := Except.bind_eq_ok_iff.1 h
    obtain rfl := Except.ok.inj h
    exact max_le_max (depth_ofJson he) (depth_listOfJson hes)

/-- The list is one level below the fields. -/
theorem depth_listOfField : ∀ {fs : List (String × Json)} {key : String} {es : List Expr},
    listOfField key fs = .ok es → Json.depthItems (listToJson es) + 1 ≤ Json.depthFields fs
  | [], _, _, h => by cases h
  | (k, .arr items) :: fs, key, es, h => by
    rw [listOfField] at h
    split at h
    · exact le_max_of_le_left (Nat.succ_le_succ (depth_listOfJson h))
    · exact le_max_of_le_right (depth_listOfField h)
  | (k, .null) :: fs, key, es, h
  | (k, .bool _) :: fs, key, es, h
  | (k, .num _) :: fs, key, es, h
  | (k, .str _) :: fs, key, es, h
  | (k, .obj _) :: fs, key, es, h => by
    simp only [listOfField] at h
    split at h
    · contradiction
    · exact le_max_of_le_right (depth_listOfField h)

theorem depth_operandsOfFields : ∀ {fs : List (String × Json)} {es : List (String × Expr)},
    operandsOfFields fs = .ok es → Json.depthFields (operandsToJson es) ≤ Json.depthFields fs
  | [], _, h => by cases h; exact le_rfl
  | (key, j) :: fs, _, h => by
    rw [operandsOfFields] at h
    split at h
    · exact le_max_of_le_right (depth_operandsOfFields h)
    · obtain ⟨e, he, h⟩ := Except.bind_eq_ok_iff.1 h
      obtain ⟨es, hes, h⟩ := Except.bind_eq_ok_iff.1 h
      obtain rfl := Except.ok.inj h
      exact max_le_max (depth_ofJson he) (depth_operandsOfFields hes)

end

end Expr

/-! ## Codecs -/

/-- What is read from a node is not deeper than the node, or not deeper than the defaults in it. -/
def Codec.Shallow {α : Type} (c : Codec α) (default : Nat) : Prop :=
  ∀ ⦃source : Source⦄ ⦃n : Node⦄ ⦃a : α⦄ ⦃k : Nat⦄, (c.decode source n).outcome = .ok a →
    n.depth ≤ k → default ≤ k → (c.encode a).depth ≤ k

/-- What a field is read from, or is set to where it is missing, it is written no deeper than. -/
structure Field.Shallow {α : Type} (f : Field α) (default : Nat) : Prop where
  read : ∀ {source : Source} {n : Node} {a : α} {k : Nat}, (f.read source n).outcome = .ok a →
    n.depth ≤ k → default ≤ k → ∀ j ∈ f.write a, j.depth ≤ k
  absent : ∀ a ∈ f.absent, ∀ j ∈ f.write a, j.depth ≤ default

namespace Codec

variable {α : Type} {c : Codec α} {default : Nat}

/-- A value without containers. -/
theorem shallow_of_depth_eq_zero (h : ∀ a, (c.encode a).depth = 0) : c.Shallow 0 := by
  intro _ _ a k _ _ _
  rw [h a]
  exact Nat.zero_le k

theorem Shallow.mono (h : c.Shallow default) {b : Nat} (hb : default ≤ b) : c.Shallow b := by
  intro _ _ _ _ hdecode hn hk
  exact h hdecode hn (hb.trans hk)

theorem shallow_string : string.Shallow 0 := shallow_of_depth_eq_zero fun _ => rfl

theorem shallow_bool : bool.Shallow 0 := shallow_of_depth_eq_zero fun _ => rfl

theorem shallow_expr : expr.Shallow 0 := by
  intro source n e k h hn _
  simp only [expr] at h
  split at h
  · contradiction
  · rename_i j hj
    split at h
    · rename_i e' he
      obtain rfl := Except.ok.inj h
      exact (Expr.depth_ofJson he).trans ((Node.depth_toJson? hj).trans hn)
    · contradiction

theorem Shallow.list (h : c.Shallow 0) : c.list.Shallow 0 := by
  intro source n as k hdecode hn _
  obtain ⟨items, rfl, hitems⟩ := list_eq_ok hdecode
  obtain ⟨k, rfl⟩ : ∃ k', k = k' + 1 := Nat.exists_eq_succ_of_ne_zero fun hk => by
    rw [hk] at hn
    exact absurd hn (Nat.not_succ_le_zero _)
  refine Nat.succ_le_succ (Json.depthItems_le_iff.2 (List.forall_mem_map.2 ?_))
  replace hn := Node.depthItems_le_iff.1 (Nat.le_of_succ_le_succ hn)
  clear hdecode
  induction hitems with
  | nil => simp
  | cons ha _ ih =>
    obtain ⟨hfirst, hrest⟩ := List.forall_mem_cons.1 hn
    exact List.forall_mem_cons.2 ⟨h ha hfirst (Nat.zero_le _), ih hrest⟩

theorem Shallow.option (h : c.Shallow default) {source : Source} {n : Node} {x : Option α} {k : Nat}
    (hdecode : (c.option.decode source n).outcome = .ok x) (hn : n.depth ≤ k) (hk : default ≤ k) :
    ∀ a ∈ x, (c.encode a).depth ≤ k := by
  simp only [Codec.option] at hdecode
  split at hdecode
  · obtain rfl := Except.ok.inj hdecode
    simp
  · rw [Report.outcome_map] at hdecode
    obtain ⟨b, hb, rfl⟩ := Except.map_eq_ok_iff.1 hdecode
    rintro a ⟨⟩
    exact h hb hn hk

theorem Shallow.ofText (h : c.Shallow default) {text : String} {a : α}
    (htext : (c.ofText text).outcome = .ok a) :
    (c.encode a).depth ≤ max (Node.ofText text).root.depth default :=
  h (decode_of_ofText htext) (le_max_left ..) (le_max_right ..)

end Codec

/-! ## Records -/

namespace Field

variable {α : Type} {c : Codec α} {default : Nat}

theorem shallow_required (h : c.Shallow default) (name : String) :
    (required name c).Shallow default where
  read hread hn hk := by
    rintro j ⟨⟩
    exact h hread hn hk
  absent := nofun

theorem shallow_optional (h : c.Shallow default) (name : String) :
    (optional name c).Shallow default where
  read hread hn hk := by
    intro j hj
    obtain ⟨a, rfl, rfl⟩ := Option.map_eq_some_iff.1 hj
    exact h.option hread hn hk a rfl
  absent := by
    rintro _ ⟨⟩ j ⟨⟩

theorem shallow_defaulted (h : c.Shallow default) (name : String) {value : α}
    (hvalue : (c.encode value).depth ≤ default) : (defaulted name c value).Shallow default where
  read hread hn hk := by
    rintro j ⟨⟩
    exact h hread hn hk
  absent := by
    rintro _ ⟨⟩ j ⟨⟩
    exact hvalue

theorem shallow_elided (h : c.Shallow default) (name : String) {value : α} {isValue : α → Bool}
    (hvalue : isValue value = true) : (elided name c value isValue).Shallow default where
  read hread hn hk := by
    intro j hj
    simp only [elided] at hj
    split at hj
    · cases hj
    · obtain rfl := Option.some.inj hj
      exact h hread hn hk
  absent := by
    rintro _ ⟨⟩ j hj
    simp only [elided, hvalue, if_true] at hj
    cases hj

theorem shallow_elidedList (h : c.Shallow 0) (name : String) : (elidedList name c).Shallow 0 :=
  shallow_elided h.list name rfl

theorem shallow_flag (name : String) : (flag name).Shallow 0 :=
  shallow_elided Codec.shallow_bool name rfl

theorem shallow_comment : comment.Shallow 0 := shallow_optional Codec.shallow_string _

theorem Shallow.mono {f : Field α} (h : f.Shallow default) {b : Nat} (hb : default ≤ b) :
    f.Shallow b where
  read hread hn hk := h.read hread hn (hb.trans hk)
  absent a ha j hj := (h.absent a ha j hj).trans hb

end Field

namespace Fields

variable {ρ σ : Type}

def Shallow (default : Nat) : {ρ σ : Type} → Fields ρ σ → Prop
  | _, _, .nil => True
  | _, _, .cons f rest => f.Shallow default ∧ rest.Shallow default

/-- What the fields are written as is not deeper than this. -/
def Within (k : Nat) (fs : Fields ρ σ) (row : ρ) : Prop := ∀ p ∈ fs.write row, p.2.depth ≤ k

theorem forall_mem_write_cons {α : Type} {f : Field α} {rest : Fields ρ σ} {a : α} {as : ρ}
    {Q : Json → Prop} : (∀ p ∈ (cons f rest).write (a, as), Q p.2) ↔
      (∀ j ∈ f.write a, Q j) ∧ ∀ p ∈ rest.write as, Q p.2 := by
  rw [write]
  cases f.write a with
  | none => simp
  | some j => simp

theorem within_cons_iff {α : Type} {f : Field α} {rest : Fields ρ σ} {a : α} {as : ρ} {k : Nat} :
    (cons f rest).Within k (a, as) ↔ (∀ j ∈ f.write a, j.depth ≤ k) ∧ rest.Within k as :=
  forall_mem_write_cons (Q := fun j => j.depth ≤ k)

theorem within_of_obtained {default k : Nat} (hk : default ≤ k) {source : Source}
    {nodes : List Node} (hnodes : ∀ n ∈ nodes, n.depth ≤ k) {fs : Fields ρ σ}
    (hfs : fs.Shallow default) {row : ρ} (h : fs.Obtained source nodes row) : fs.Within k row := by
  induction fs with
  | nil => exact List.forall_mem_nil _
  | cons f rest ih =>
    obtain ⟨a, as⟩ := row
    refine within_cons_iff.2 ⟨?_, ih hfs.2 h.2⟩
    rcases h.1 with ⟨n, hn, ha⟩ | habsent
    · exact hfs.1.read ha (hnodes n hn) hk
    · intro j hj
      exact (hfs.1.absent a habsent j hj).trans hk

end Fields

theorem Node.Holds.depth_le {n : Node} {nodes : List Node} (h : n.Holds nodes) {k : Nat}
    (hn : n.depth ≤ k) : ∃ k', k = k' + 1 ∧ ∀ m ∈ nodes, m.depth ≤ k' := by
  cases h with
  | arr items =>
    obtain ⟨k', rfl⟩ := Nat.exists_eq_add_of_le' ((Nat.le_add_left 1 _).trans hn)
    exact ⟨k', rfl, Node.depthItems_le_iff.1 (Nat.le_of_succ_le_succ hn)⟩
  | obj entries =>
    obtain ⟨k', rfl⟩ := Nat.exists_eq_add_of_le' ((Nat.le_add_left 1 _).trans hn)
    refine ⟨k', rfl, ?_⟩
    rw [List.forall_mem_map]
    exact Node.depthFields_le_iff.1 (Nat.le_of_succ_le_succ hn)

/-- A record is a container around its fields. -/
theorem Record.shallow_of_fields {α : Type} (r : Record α)
    (hrow : ∀ row, r.toRow (r.ofRow row) = row) {field default : Nat}
    (hfs : r.fields.Shallow field) (hd : field = 0 ∨ field < default) :
    r.codec.Shallow default := by
  intro source n a k h hn hk
  obtain ⟨nodes, row, hholds, hobtained, rfl⟩ := Record.obtained_of_decode h
  obtain ⟨k', rfl, hnodes⟩ := hholds.depth_le hn
  have hwithin := Fields.within_of_obtained (by omega) hnodes hfs hobtained
  refine Nat.succ_le_succ (Json.depthFields_le_iff.2 ?_)
  rw [hrow]
  exact hwithin

/-- Where no default has containers, nothing gets deeper. -/
theorem Record.shallow {α : Type} (r : Record α) (hrow : ∀ row, r.toRow (r.ofRow row) = row)
    (hfs : r.fields.Shallow 0) : r.codec.Shallow 0 :=
  r.shallow_of_fields hrow hfs (.inl rfl)

/-! ## Types and variables -/

namespace VarType

theorem depth_bound? {o : Option Node} {bound : Option Expr} {k : Nat} (h : bound? o = some bound)
    (hk : ∀ n ∈ o, n.depth ≤ k) : ∀ e ∈ bound, e.toJson.depth ≤ k := by
  unfold bound? at h
  split at h
  · obtain rfl := Option.some.inj h
    nofun
  · obtain rfl := Option.some.inj h
    nofun
  · rename_i n _
    obtain ⟨j, hj, h⟩ := Option.bind_eq_some_iff.1 h
    obtain ⟨e, he, h⟩ := Option.bind_eq_some_iff.1 h
    obtain rfl := Option.some.inj h
    rintro _ ⟨⟩
    have hread := Expr.depth_ofJson (Except.toOption_eq_some_iff.1 he)
    exact hread.trans ((Node.depth_toJson? hj).trans (hk n rfl))

theorem depth_toJson_bounded {base : BasicType} {lower upper : Option Expr} {k : Nat}
    (hlower : ∀ e ∈ lower, e.toJson.depth ≤ k) (hupper : ∀ e ∈ upper, e.toJson.depth ≤ k) :
    (toJson (.bounded base lower upper)).depth ≤ k + 1 := by
  have hbound : ∀ (name : String) {bound : Option Expr}, (∀ e ∈ bound, e.toJson.depth ≤ k) →
      ∀ p ∈ boundField name bound, p.2.depth ≤ k := by
    intro name bound hb
    cases bound with
    | none => nofun
    | some e => exact List.forall_mem_singleton.2 (hb e rfl)
  refine Nat.succ_le_succ (Json.depthFields_le_iff.2 ?_)
  refine List.forall_mem_cons.2 ⟨Nat.zero_le _, List.forall_mem_cons.2 ⟨Nat.zero_le _, ?_⟩⟩
  exact List.forall_mem_append.2 ⟨hbound _ hlower, hbound _ hupper⟩

theorem depth_bounded? {kind base : Node} {lower upper : Option Node} {t : VarType} {k : Nat}
    (h : bounded? kind base lower upper = some t) (hlower : ∀ n ∈ lower, n.depth ≤ k)
    (hupper : ∀ n ∈ upper, n.depth ≤ k) : t.toJson.depth ≤ k + 1 := by
  obtain ⟨-, -, h⟩ := Option.bind_eq_some_iff.1 h
  obtain ⟨b, -, h⟩ := Option.bind_eq_some_iff.1 h
  obtain ⟨lo, hlo, h⟩ := Option.bind_eq_some_iff.1 h
  obtain ⟨up, hup, h⟩ := Option.bind_eq_some_iff.1 h
  obtain rfl := Option.some.inj h
  exact depth_toJson_bounded (depth_bound? hlo hlower) (depth_bound? hup hupper)

theorem depth_boundedOfFields? {fields : List (Option String × Node)} {t : VarType}
    (h : boundedOfFields? fields = some t) : t.toJson.depth ≤ (Node.obj fields).depth := by
  have hlookup : ∀ key, ∀ n ∈ fields.lookup key, n.depth ≤ Node.depthFields fields := by
    intro key n hn
    obtain ⟨before, after, hfields, -⟩ := List.lookup_eq_some_iff.1 hn
    exact Node.depthFields_le_iff.1 le_rfl (key, n) (by rw [hfields]; simp)
  obtain ⟨-, -, h⟩ := Option.bind_eq_some_iff.1 h
  obtain ⟨kind, -, h⟩ := Option.bind_eq_some_iff.1 h
  obtain ⟨base, -, h⟩ := Option.bind_eq_some_iff.1 h
  exact depth_bounded? h (hlookup _) (hlookup _)

theorem depth_boundedOfItems? {items : List Node} {t : VarType}
    (h : boundedOfItems? items = some t) : t.toJson.depth ≤ (Node.arr items).depth := by
  have hitem : ∀ n ∈ items, n.depth ≤ Node.depthItems items := Node.depthItems_le_iff.1 le_rfl
  unfold boundedOfItems? at h
  split at h
  · exact depth_bounded? h nofun nofun
  · refine depth_bounded? h ?_ nofun
    rintro _ ⟨⟩
    exact hitem _ (by simp)
  · refine depth_bounded? h ?_ ?_
    · rintro _ ⟨⟩
      exact hitem _ (by simp)
    · rintro _ ⟨⟩
      exact hitem _ (by simp)
  · contradiction

theorem depth_toJson_array (t : VarType) : (toJson (.array t)).depth = t.toJson.depth + 1 := by
  simp [toJson, Json.depth, Json.depthFields]

theorem depth_ofNode? {n : Node} {t : VarType} (h : ofNode? n = some t) :
    t.toJson.depth ≤ n.depth := by
  -- an array type takes up the container that its base type stands in
  have harray : ∀ {base : Node} {t : VarType} {k : Nat},
      (∀ {t}, ofNode? base = some t → t.toJson.depth ≤ base.depth) → base.depth ≤ k →
        (ofNode? base).map .array = some t → t.toJson.depth ≤ k + 1 := by
    intro base t k ih hk h
    obtain ⟨u, hu, rfl⟩ := Option.map_eq_some_iff.1 h
    rw [depth_toJson_array]
    exact Nat.succ_le_succ ((ih hu).trans hk)
  have hbasic : ∀ {o : Option BasicType} {t : VarType}, o.map VarType.basic = some t →
      t.toJson.depth = 0 := by
    intro o t h
    obtain ⟨b, -, rfl⟩ := Option.map_eq_some_iff.1 h
    rfl
  fun_induction ofNode? n generalizing t with
  | case1 kind base _ ih => exact harray ih (by simp [Node.depthItems]) h
  | case2 kind base _ => exact depth_bounded? h nofun nofun
  | case3 items _ => exact depth_boundedOfItems? h
  | case4 k a l b _ ih => exact harray ih (by simp [Node.depthFields]) h
  | case5 k a l b _ _ ih => exact harray ih (by simp [Node.depthFields]) h
  | case6 k a l b _ _ => exact depth_boundedOfFields? h
  | case7 fields _ =>
    rcases Option.or_eq_some_iff.1 h with h | ⟨-, h⟩
    · rw [hbasic h]
      exact Nat.zero_le _
    · exact depth_boundedOfFields? h
  | case8 n _ _ _ _ =>
    rw [hbasic h]
    exact Nat.zero_le _

theorem shallow : codec.Shallow 0 := by
  intro source n t k h hn _
  simp only [codec] at h
  split at h
  · split at h
    · rename_i u hu
      obtain rfl := Except.ok.inj h
      exact (depth_ofNode? hu).trans hn
    · contradiction
  · contradiction

end VarType

theorem Variable.shallow : codec.Shallow 0 :=
  record.shallow (fun _ => rfl)
    ⟨Field.shallow_required Codec.shallow_string _, Field.shallow_required VarType.shallow _,
      Field.shallow_flag _, Field.shallow_optional Codec.shallow_expr _, Field.shallow_comment,
      trivial⟩

namespace Registry

theorem shallow : codec.Shallow 0 := by
  intro source n r k h hn hk
  exact Variable.shallow.list (declares_of_decode h).1 hn hk

end Registry

/-! ## Automata and files -/

theorem Guard.shallow : record.codec.Shallow 0 :=
  record.shallow (fun _ => rfl)
    ⟨Field.shallow_required Codec.shallow_expr _, Field.shallow_comment, trivial⟩

theorem Probability.shallow : record.codec.Shallow 0 :=
  record.shallow (fun _ => rfl)
    ⟨Field.shallow_required Codec.shallow_expr _, Field.shallow_comment, trivial⟩

theorem Assignment.shallow : record.codec.Shallow 0 :=
  record.shallow (fun _ => rfl)
    ⟨Field.shallow_required Codec.shallow_expr _, Field.shallow_required Codec.shallow_expr _,
      Field.shallow_comment, trivial⟩

theorem Destination.shallow : record.codec.Shallow 0 :=
  record.shallow (fun _ => rfl)
    ⟨Field.shallow_required Codec.shallow_string _, Field.shallow_optional Probability.shallow _,
      Field.shallow_elidedList Assignment.shallow _, Field.shallow_comment, trivial⟩

theorem Edge.shallow : record.codec.Shallow 0 :=
  record.shallow (fun _ => rfl)
    ⟨Field.shallow_required Codec.shallow_string _, Field.shallow_optional Codec.shallow_string _,
      Field.shallow_optional Guard.shallow _, Field.shallow_required Destination.shallow.list _,
      Field.shallow_comment, trivial⟩

theorem Location.shallow : record.codec.Shallow 0 :=
  record.shallow (fun _ => rfl)
    ⟨Field.shallow_required Codec.shallow_string _, Field.shallow_comment, trivial⟩

/-- Variables and edges may be missing, and are then written as empty lists. -/
theorem Automaton.shallow : codec.Shallow 2 := by
  have hfields : record.fields.Shallow 1 :=
    ⟨(Field.shallow_required Codec.shallow_string _).mono zero_le_one,
      Field.shallow_defaulted (Registry.shallow.mono zero_le_one) _ le_rfl,
      (Field.shallow_required Location.shallow.list _).mono zero_le_one,
      (Field.shallow_required Codec.shallow_string.list _).mono zero_le_one,
      Field.shallow_defaulted (Edge.shallow.list.mono zero_le_one) _ le_rfl,
      Field.shallow_comment.mono zero_le_one, trivial⟩
  exact record.shallow_of_fields (fun _ => rfl) hfields (.inr Nat.one_lt_two)

theorem ChartFile.shallow : record.codec.Shallow 3 := by
  have hfields : record.fields.Shallow 2 :=
    ⟨(Field.shallow_required Codec.shallow_string _).mono (Nat.zero_le _),
      Field.shallow_defaulted (Codec.shallow_bool.mono (Nat.zero_le _)) _ (Nat.zero_le _),
      Field.shallow_required Automaton.shallow _, trivial⟩
  exact record.shallow_of_fields (fun _ => rfl) hfields (.inr (Nat.lt_succ_self 2))

theorem Property.shallow : record.codec.Shallow 0 :=
  record.shallow (fun _ => rfl)
    ⟨Field.shallow_required Codec.shallow_string _, Field.shallow_required Codec.shallow_expr _,
      Field.shallow_comment, trivial⟩

end AutomataNet
