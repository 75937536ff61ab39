import AutomataNet.Proofs.Declarations
import AutomataNet.Proofs.Relabeling
import AutomataNet.Proofs.RoundTrip
/-!
# Models as documents

What is written for a model can be read again, and only two things are lost on the way: the
capacities of arrays, and the comments on literals and identifiers (`Model.rereads`). What is read
is written in the same way as the model itself.

Each codec is shown to do so for its own part. For a record it is enough that its fields have
different names and that each field is read back.
-/

namespace AutomataNet

/-! ## JSON values as nodes -/

namespace Node

theorem ofJsonItems_eq (js : List Json) : ofJsonItems js = js.map ofJson := by
  induction js with
  | nil => rfl
  | cons j js ih => rw [ofJsonItems, ih, List.map_cons]

theorem ofJsonFields_eq (fs : List (String × Json)) :
    ofJsonFields fs = fs.map fun (k, j) => (some k, ofJson j) := by
  induction fs with
  | nil => rfl
  | cons f fs ih => rw [ofJsonFields, ih, List.map_cons]

mutual

theorem readable_ofJson : ∀ j : Json, (ofJson j).readable = true
  | .null | .bool _ | .num _ | .str _ => rfl
  | .arr items => readableItems_ofJson items
  | .obj fields => readableFields_ofJson fields

theorem readableItems_ofJson : ∀ js : List Json, readableItems (ofJsonItems js) = true
  | [] => rfl
  | j :: js => by
    rw [ofJsonItems, readableItems, readable_ofJson j, readableItems_ofJson js, Bool.and_self]

theorem readableFields_ofJson : ∀ fs : List (String × Json), readableFields (ofJsonFields fs) = true
  | [] => rfl
  | (k, j) :: fs => by
    rw [ofJsonFields, readableFields, readable_ofJson j, readableFields_ofJson fs]
    rfl

end

theorem setField_of_notMem {key : String} {seen : List (String × Json)}
    (h : key ∉ seen.map (·.1)) (j : Json) : setField key j seen = seen ++ [(key, j)] := by
  induction seen with
  | nil => rfl
  | cons f seen ih =>
    obtain ⟨hne, hseen⟩ := not_or.1 (List.mem_cons.not.1 h)
    rw [setField, if_neg (Ne.symm hne), ih hseen, List.cons_append]

mutual

theorem toJson?_ofJson : ∀ j : Json, j.isProper = true → (ofJson j).toJson? = some j
  | .null, _ | .bool _, _ | .num _, _ | .str _, _ => rfl
  | .arr items, h => by
    rw [ofJson, toJson?, toJsonItems?_ofJson items h, Option.map_some]
  | .obj fields, h => by
    simp only [Json.isProper, Bool.and_eq_true, decide_eq_true_eq] at h
    rw [ofJson, toJson?, toJsonFields?_ofJson fields [] h.1 h.2, Option.map_some, List.nil_append]

theorem toJsonItems?_ofJson :
    ∀ js : List Json, Json.itemsProper js = true → toJsonItems? (ofJsonItems js) = some js
  | [], _ => rfl
  | j :: js, h => by
    simp only [Json.itemsProper, Bool.and_eq_true] at h
    simp [ofJsonItems, toJsonItems?, toJson?_ofJson j h.1, toJsonItems?_ofJson js h.2]

/-- No field is repeated, so each is added at the end. -/
theorem toJsonFields?_ofJson : ∀ fs seen : List (String × Json),
    ((seen ++ fs).map (·.1)).Nodup → Json.fieldsProper fs = true →
      toJsonFields? seen (ofJsonFields fs) = some (seen ++ fs)
  | [], seen, _, _ => by rw [ofJsonFields, toJsonFields?, List.append_nil]
  | (k, j) :: fs, seen, hn, h => by
    simp only [Json.fieldsProper, Bool.and_eq_true] at h
    have hk : k ∉ seen.map (·.1) := by
      rw [List.map_append, List.map_cons] at hn
      exact fun hk => (List.nodup_append'.1 hn).2.2 hk (List.mem_cons_self ..)
    have hrest := toJsonFields?_ofJson fs (seen ++ [(k, j)]) (by simpa using hn) h.2
    simp [ofJsonFields, toJsonFields?, toJson?_ofJson j h.1, setField_of_notMem hk, hrest]

end

end Node

/-! ## Expressions -/

namespace Expr

mutual

/-- The comments that are lost were never written. -/
theorem toJson_bare : ∀ e : Expr, e.bare.toJson = e.toJson
  | .literal .. | .identifier .. => rfl
  | .operator op operands c => by
    change toJson (.operator op (relabelOperands .eraseLeaves operands) c) = _
    rw [toJson, operandsToJson_bare operands, toJson]
  | .arrayValue elements c => by
    change toJson (.arrayValue (relabelList .eraseLeaves elements) c) = _
    rw [toJson, listToJson_bare elements, toJson]
  | .distribution name args c => by
    change toJson (.distribution name (relabelList .eraseLeaves args) c) = _
    rw [toJson, listToJson_bare args, toJson]

theorem listToJson_bare :
    ∀ es : List Expr, listToJson (relabelList .eraseLeaves es) = listToJson es
  | [] => rfl
  | e :: es => congrArg₂ (· :: ·) (toJson_bare e) (listToJson_bare es)

theorem operandsToJson_bare : ∀ es : List (String × Expr),
    operandsToJson (relabelOperands .eraseLeaves es) = operandsToJson es
  | [] => rfl
  | (role, e) :: es =>
    congrArg₂ (fun j fs => (role, j) :: fs) (toJson_bare e) (operandsToJson_bare es)

end

theorem toJson_ne_null (e : Expr) : e.toJson ≠ .null := by
  cases e with
  | literal v c => cases v <;> nofun
  | identifier | operator | arrayValue | distribution => nofun

end Expr

/-! ## Codecs -/

namespace Codec

variable {α : Type}

/-- What is written for `a` is read as `a'`, and is also what is written for `a'`. -/
structure Rereads (c : Codec α) (a a' : α) : Prop where
  decode : (c.ofValue (c.encode a)).outcome = .ok a'
  encode : c.encode a' = c.encode a

theorem rereads_string (s : String) : string.Rereads s s := ⟨rfl, rfl⟩

theorem rereads_bool (b : Bool) : bool.Rereads b b := ⟨rfl, rfl⟩

theorem rereads_byte (n : UInt8) : byte.Rereads n n := by
  refine ⟨?_, rfl⟩
  have hrange : (0 ≤ (n.toNat : Int) && (n.toNat : Int) < 256) = true := by
    have := n.toNat_lt
    simp only [Bool.and_eq_true, decide_eq_true_eq]
    omega
  simp only [ofValue, byte, Json.ofNat, Node.ofJson, hrange, if_true, Int.toNat_natCast,
    UInt8.ofNat_toNat, Report.outcome_ok]

theorem rereads_expr {e : Expr} (he : e.isEncodable = true) : expr.Rereads e e.bare := by
  refine ⟨?_, e.toJson_bare⟩
  simp only [ofValue, expr, Node.toJson?_ofJson _ (e.isProper_toJson he), e.ofJson_toJson he]
  rfl

theorem rereads_choice {c : Choice α} {a : α} (h : c.ofSpelling? (c.spelling a) = some a) :
    (choice c).Rereads a a := by
  refine ⟨?_, rfl⟩
  show (c.pick (c.spelling a)).outcome = .ok a
  rw [Choice.pick, h]
  rfl

variable {c : Codec α} {g : α → α}

theorem Rereads.list {xs : List α} (h : ∀ x ∈ xs, c.Rereads x (g x)) :
    c.list.Rereads xs (xs.map g) := by
  constructor
  · show (Report.mapList (c.decode .value) (Node.ofJsonItems (xs.map c.encode))).outcome = _
    rw [Report.mapList_eq_ok_iff, Node.ofJsonItems_eq, List.map_map, List.forall₂_map_left_iff,
      List.forall₂_map_right_iff, List.forall₂_same]
    exact fun x hx => (h x hx).decode
  · show Json.arr ((xs.map g).map c.encode) = .arr (xs.map c.encode)
    rw [List.map_map]
    exact congrArg Json.arr (List.map_congr_left fun x hx => (h x hx).encode)

theorem Rereads.list_self (h : ∀ x, c.Rereads x x) (xs : List α) : c.list.Rereads xs xs := by
  have hxs := Rereads.list (g := id) fun x (_ : x ∈ xs) => h x
  rwa [List.map_id] at hxs

theorem Rereads.option {x : Option α} (hnull : ∀ a, c.encode a ≠ .null)
    (h : ∀ a ∈ x, c.Rereads a (g a)) : c.option.Rereads x (x.map g) := by
  cases x with
  | none => exact ⟨rfl, rfl⟩
  | some a =>
    have ha := h a rfl
    refine ⟨?_, ha.encode⟩
    have hread : c.option.ofValue (c.encode a) = some <$> c.ofValue (c.encode a) := by
      have hj := hnull a
      unfold ofValue
      cases hc : c.encode a with
      | null => exact absurd hc hj
      | bool | num | str | arr | obj => rfl
    show (c.option.ofValue (c.encode a)).outcome = _
    rw [hread, Report.outcome_map, ha.decode]
    rfl

end Codec

/-! ## Records -/

/-- A field that is written is read back, and one that is left out has its value by default. -/
structure Field.Rereads {α : Type} (f : Field α) (a a' : α) : Prop where
  write : f.write a' = f.write a
  read : ∀ j, f.write a = some j → (f.read .value (Node.ofJson j)).outcome = .ok a'
  absent : f.write a = none → f.absent = some a'

namespace Codec.Rereads

variable {α : Type} {c : Codec α} {a a' : α}

/-- A field that is always there. -/
theorem written (h : c.Rereads a a') {f : Field α} (hwrite : f.write = some ∘ c.encode)
    (hread : f.read = c.decode) : f.Rereads a a' where
  write := by
    rw [hwrite]
    exact congrArg some h.encode
  read j hj := by
    rw [hwrite] at hj
    obtain rfl := Option.some.inj hj
    rw [hread]
    exact h.decode
  absent hno := by
    rw [hwrite] at hno
    cases hno

theorem required (h : c.Rereads a a') (name : String) : (Field.required name c).Rereads a a' :=
  h.written rfl rfl

theorem defaulted (h : c.Rereads a a') (name : String) (value : α) :
    (Field.defaulted name c value).Rereads a a' :=
  h.written rfl rfl

theorem elided (h : c.Rereads a a') (name : String) {value : α} {isValue : α → Bool}
    (hsame : isValue a' = isValue a) (hvalue : isValue a = true → value = a') :
    (Field.elided name c value isValue).Rereads a a' where
  write := by
    simp only [Field.elided, hsame, h.encode]
  read j hj := by
    simp only [Field.elided, Option.ite_none_left_eq_some, Option.some.injEq] at hj
    obtain ⟨-, rfl⟩ := hj
    exact h.decode
  absent hno := by
    simp only [Field.elided, ite_eq_left_iff, reduceCtorEq, imp_false, Bool.not_eq_true,
      Bool.not_eq_false] at hno
    exact congrArg some (hvalue hno)

theorem elidedList {xs xs' : List α} (h : c.list.Rereads xs xs')
    (hempty : xs'.isEmpty = xs.isEmpty) (name : String) :
    (Field.elidedList name c).Rereads xs xs' :=
  h.elided name hempty fun hxs => (List.isEmpty_iff.1 (hempty.trans hxs)).symm

end Codec.Rereads

namespace Field

variable {α : Type} {c : Codec α} {g : α → α}

theorem rereads_optional {x : Option α} (hnull : ∀ a, c.encode a ≠ .null)
    (h : ∀ a ∈ x, c.Rereads a (g a)) (name : String) :
    (optional name c).Rereads x (x.map g) := by
  have hoption := Codec.Rereads.option hnull h
  cases x with
  | none => exact ⟨rfl, nofun, fun _ => rfl⟩
  | some a =>
    refine ⟨congrArg some hoption.encode, fun j hj => ?_, nofun⟩
    obtain rfl := Option.some.inj hj
    exact hoption.decode

theorem rereads_optionalString (x : Option String) (name : String) :
    (optional name .string).Rereads x x := by
  have h := rereads_optional (x := x) (c := .string) (g := id) (fun _ => nofun)
    (fun s _ => Codec.rereads_string s) name
  rwa [Option.map_id] at h

theorem rereads_comment (x : Option String) : comment.Rereads x x := rereads_optionalString x _

theorem rereads_flag (b : Bool) (name : String) : (flag name).Rereads b b :=
  (Codec.rereads_bool b).elided name rfl (by cases b <;> simp)

end Field

namespace Fields

variable {ρ σ : Type}

def names : {ρ σ : Type} → Fields ρ σ → List String
  | _, _, .nil => []
  | _, _, .cons f rest => f.name :: rest.names

/-- Each field is read back. -/
def Rereads : {ρ σ : Type} → Fields ρ σ → ρ → ρ → Prop
  | _, _, .nil, _, _ => True
  | _, _, .cons f rest, (a, as), (a', as') => f.Rereads a a' ∧ rest.Rereads as as'

theorem write_of_rereads {fs : Fields ρ σ} {row row' : ρ} (h : fs.Rereads row row') :
    fs.write row' = fs.write row := by
  induction fs with
  | nil => rfl
  | cons f rest ih =>
    obtain ⟨hf, hrest⟩ := h
    rw [write, write, hf.write, ih hrest]

theorem mem_names_of_mem_write {fs : Fields ρ σ} {row : ρ} {p : String × Json}
    (h : p ∈ fs.write row) : p.1 ∈ fs.names := by
  induction fs with
  | nil => cases h
  | cons f rest ih =>
    rw [write] at h
    split at h
    · rcases List.mem_cons.1 h with rfl | h
      · exact List.mem_cons_self ..
      · exact List.mem_cons_of_mem _ (ih h)
    · exact List.mem_cons_of_mem _ (ih h)

/-- Fields of other names are read as if the first field were not there. -/
theorem readFields_cons {α : Type} {f : Field α} {rest : Fields ρ σ} {slot : Option α}
    {source : Source} {entries : List (Option String × Node)}
    (h : ∀ p ∈ entries, p.1 ≠ some f.name) (slots : σ) :
    ((cons f rest).readFields source (slot, slots) entries).outcome =
      (slot, ·) <$> (rest.readFields source slots entries).outcome := by
  induction entries generalizing slots with
  | nil => rfl
  | cons p entries ih =>
    obtain ⟨hp, hentries⟩ := List.forall_mem_cons.1 h
    obtain ⟨key, n⟩ := p
    cases key with
    | none => rfl
    | some key =>
      have hne : f.name ≠ key := fun hkey => hp (congrArg some hkey.symm)
      simp only [readFields, put, if_neg hne]
      cases rest.put source key n slots with
      | none =>
        simp only [Option.map_none]
        split
        · exact ih hentries slots
        · rfl
      | some r =>
        simp only [Option.map_some, Report.outcome_bind, Report.outcome_map]
        cases r.outcome with
        | error e => rfl
        | ok slots' => exact ih hentries slots'

/-- Fields of different names do not get into each other's way. -/
theorem exists_readFields {fs : Fields ρ σ} {row row' : ρ} (hn : fs.names.Nodup)
    (h : fs.Rereads row row') :
    ∃ slots,
      (fs.readFields .value fs.vacant (Node.ofJsonFields (fs.write row))).outcome = .ok slots ∧
        fs.finish slots = .ok row' := by
  induction fs with
  | nil => exact ⟨(), rfl, rfl⟩
  | @cons α β τ f rest ih =>
    obtain ⟨a, as⟩ := row
    obtain ⟨a', as'⟩ := row'
    obtain ⟨hf, hrest⟩ := h
    obtain ⟨hfresh, hn⟩ := List.nodup_cons.1 hn
    obtain ⟨slots, hread, hfinish⟩ := ih hn hrest
    have hothers : ∀ p ∈ Node.ofJsonFields (rest.write as), p.1 ≠ some f.name := by
      rw [Node.ofJsonFields_eq, List.forall_mem_map]
      rintro ⟨k, j⟩ hp hk
      exact hfresh (Option.some.inj hk ▸ mem_names_of_mem_write hp)
    -- whatever is in the first slot, the other entries pass it by
    have hskip (slot : Option α) :
        ((cons f rest).readFields .value (slot, rest.vacant)
          (Node.ofJsonFields (rest.write as))).outcome = .ok (slot, slots) := by
      rw [readFields_cons hothers, hread]
      rfl
    cases hw : f.write a with
    | none =>
      refine ⟨(none, slots), ?_, ?_⟩
      · simp only [write, hw]
        exact hskip none
      · simp only [finish, Option.none_or, hf.absent hw, hfinish]
        rfl
    | some j =>
      refine ⟨(some a', slots), ?_, ?_⟩
      · simp only [write, hw, Node.ofJsonFields, readFields, vacant, put, if_true,
          Report.outcome_bind, Report.outcome_map, hf.read j hw]
        exact hskip (some a')
      · simp only [finish, Option.some_or, hfinish]
        rfl

end Fields

theorem Record.encode_ne_null {α : Type} (r : Record α) (a : α) : r.codec.encode a ≠ .null := by
  unfold codec
  nofun

theorem Record.rereads {α : Type} {r : Record α} {a a' : α} (hn : r.fields.names.Nodup)
    (hrow : r.ofRow (r.toRow a') = a') (h : r.fields.Rereads (r.toRow a) (r.toRow a')) :
    r.codec.Rereads a a' := by
  obtain ⟨slots, hread, hfinish⟩ := Fields.exists_readFields hn h
  refine ⟨?_, congrArg Json.obj (Fields.write_of_rereads h)⟩
  show (r.decode .value (.obj (Node.ofJsonFields (r.fields.write (r.toRow a))))).outcome = _
  rw [Record.decode, Report.outcome_bind, hread]
  simp only [bind, Except.bind, hfinish, hrow]
  rfl

/-! ## What a document can hold -/

/-- The capacity is forgotten. -/
def Variable.unsized (v : Variable) : Variable := { v with capacities := none }

def Registry.unsized (r : Registry) : Registry :=
  r.withVars (r.vars.map (·.unsized)) (List.map_map ..)

def Automaton.unsized (a : Automaton) : Automaton := { a with locals := a.locals.unsized }

/-- The model without the capacities of its arrays. -/
def Model.unsized (m : Model) : Model :=
  { m with globals := m.globals.unsized, automata := m.automata.map (·.unsized) }

/-- What is left of a model in a document: neither capacities nor comments on literals and
identifiers. -/
def Model.reloaded (m : Model) : Model := m.unsized.mapExprs .bare

def VarType.Encodable : VarType → Prop
  | .basic _ => True
  | .bounded _ lower upper =>
    (∀ e ∈ lower, e.isEncodable = true) ∧ ∀ e ∈ upper, e.isEncodable = true
  | .array base => base.Encodable

@[mk_iff]
structure Variable.Encodable (v : Variable) : Prop where
  type : v.type.Encodable
  initial : ∀ e ∈ v.initial, e.isEncodable = true

def Registry.Encodable (r : Registry) : Prop := ∀ v ∈ r.vars, v.Encodable

@[mk_iff]
structure Destination.Encodable (d : Destination) : Prop where
  probability : ∀ p ∈ d.probability, p.exp.isEncodable = true
  assignments : ∀ a ∈ d.assignments, a.target.isEncodable = true ∧ a.value.isEncodable = true

@[mk_iff]
structure Edge.Encodable (e : Edge) : Prop where
  guard : ∀ g ∈ e.guard, g.exp.isEncodable = true
  destinations : ∀ d ∈ e.destinations, d.Encodable

@[mk_iff]
structure Automaton.Encodable (a : Automaton) : Prop where
  locals : a.locals.Encodable
  edges : ∀ e ∈ a.edges, e.Encodable

/-- All expressions of the model can be written. -/
@[mk_iff]
structure Model.Encodable (m : Model) : Prop where
  globals : m.globals.Encodable
  automata : ∀ a ∈ m.automata, a.Encodable
  properties : ∀ p ∈ m.properties, p.expression.isEncodable = true

instance VarType.decidableEncodable : DecidablePred VarType.Encodable
  | .basic _ => inferInstanceAs (Decidable True)
  | .bounded _ lower upper => inferInstanceAs
      (Decidable ((∀ e ∈ lower, e.isEncodable = true) ∧ ∀ e ∈ upper, e.isEncodable = true))
  | .array base => decidableEncodable base

instance : DecidablePred Variable.Encodable := fun v => decidable_of_iff' _ v.encodable_iff

instance : DecidablePred Registry.Encodable := fun r =>
  inferInstanceAs (Decidable (∀ v ∈ r.vars, v.Encodable))

instance : DecidablePred Destination.Encodable := fun d => decidable_of_iff' _ d.encodable_iff

instance : DecidablePred Edge.Encodable := fun e => decidable_of_iff' _ e.encodable_iff

instance : DecidablePred Automaton.Encodable := fun a => decidable_of_iff' _ a.encodable_iff

instance : DecidablePred Model.Encodable := fun m => decidable_of_iff' _ m.encodable_iff

/-! ## Variables -/

namespace VarType

theorem basic?_spelling (t : BasicType) : basic? (.str t.spelling) = some t := by
  cases t <;> rfl

theorem bound?_toJson {bound : Option Expr} (h : ∀ e ∈ bound, e.isEncodable = true) :
    bound? (bound.map (Node.ofJson ·.toJson)) = some (bound.map .bare) := by
  cases bound with
  | none => rfl
  | some e =>
    have he := h e rfl
    have hread : (do
        let j ← (Node.ofJson e.toJson).toJson?
        let e ← (Expr.ofJson j).toOption
        return some e : Option (Option Expr)) = some (some e.bare) := by
      rw [Node.toJson?_ofJson _ (e.isProper_toJson he)]
      simp only [Option.bind_eq_bind, Option.bind_some, e.ofJson_toJson he]
      rfl
    rw [Option.map_some, Option.map_some, ← hread]
    cases hj : e.toJson with
    | null => exact absurd hj e.toJson_ne_null
    | bool | num | str | arr | obj => rfl

/-- The entries of a bounded type, as far as there are any. -/
def boundedFields (base : BasicType) (lower upper : Option Expr) : List (Option String × Node) :=
  Node.ofJsonFields (("kind", .str "bounded") :: ("base", .str base.spelling) ::
    (boundField "lower-bound" lower ++ boundField "upper-bound" upper))

theorem ofNode?_bounded (base : BasicType) {lower upper : Option Expr}
    (hlower : ∀ e ∈ lower, e.isEncodable = true) (hupper : ∀ e ∈ upper, e.isEncodable = true) :
    ofNode? (Node.ofJson (toJson (.bounded base lower upper))) =
      some (.bounded base (lower.map .bare) (upper.map .bare)) := by
  have hfields : ofNode? (.obj (boundedFields base lower upper)) =
      boundedOfFields? (boundedFields base lower upper) := by
    cases lower <;> cases upper <;> rfl
  have hkeys : hasBoundedKeys (boundedFields base lower upper) = true := by
    cases lower <;> cases upper <;> rfl
  have hkind : (boundedFields base lower upper).lookup (some "kind") = some (.str "bounded") := rfl
  have hbase : (boundedFields base lower upper).lookup (some "base") =
      some (.str base.spelling) := rfl
  have hl : (boundedFields base lower upper).lookup (some "lower-bound") =
      lower.map (Node.ofJson ·.toJson) := by
    cases lower <;> cases upper <;> rfl
  have hu : (boundedFields base lower upper).lookup (some "upper-bound") =
      upper.map (Node.ofJson ·.toJson) := by
    cases lower <;> cases upper <;> rfl
  show ofNode? (.obj (boundedFields base lower upper)) = _
  rw [hfields, boundedOfFields?, hkeys, hkind, hbase, hl, hu]
  simp [bounded?, isKind, basic?_spelling, bound?_toJson hlower, bound?_toJson hupper]

theorem ofNode?_toJson {t : VarType} (h : t.Encodable) :
    ofNode? (Node.ofJson t.toJson) = some (t.mapExprs .bare) := by
  induction t with
  | basic t => cases t <;> rfl
  | bounded base lower upper => exact ofNode?_bounded base h.1 h.2
  | array base ih =>
    simp only [toJson, Node.ofJson, Node.ofJsonFields, ofNode?, ih h]
    rfl

theorem toJson_bare (t : VarType) : (t.mapExprs .bare).toJson = t.toJson := by
  induction t with
  | basic => rfl
  | bounded base lower upper =>
    have hbound (name : String) (bound : Option Expr) :
        boundField name (bound.map .bare) = boundField name bound := by
      cases bound with
      | none => rfl
      | some e => simp only [Option.map_some, boundField, e.toJson_bare]
    simp only [mapExprs, toJson, hbound]
  | array base ih => simp only [mapExprs, toJson, ih]

theorem rereads {t : VarType} (h : t.Encodable) : codec.Rereads t (t.mapExprs .bare) := by
  refine ⟨?_, t.toJson_bare⟩
  simp only [Codec.ofValue, codec, Node.readable_ofJson, if_true, ofNode?_toJson h,
    Report.outcome_ok]

end VarType

theorem Variable.rereads {v : Variable} (h : v.Encodable) :
    codec.Rereads v (v.unsized.mapExprs .bare) := by
  refine Record.rereads (by decide) rfl
    ⟨(Codec.rereads_string _).required _, (VarType.rereads h.type).required _,
      Field.rereads_flag _ _, ?_, Field.rereads_comment _, trivial⟩
  exact Field.rereads_optional Expr.toJson_ne_null
    (fun e he => Codec.rereads_expr (h.initial e he)) _

namespace Registry

theorem rereads {r : Registry} (h : r.Encodable) :
    codec.Rereads r (r.unsized.mapExprs .bare) := by
  have hvars : Variable.codec.list.Rereads r.vars (r.unsized.mapExprs .bare).vars := by
    rw [show (r.unsized.mapExprs .bare).vars = r.vars.map _ from List.map_map]
    exact Codec.Rereads.list fun v hv => Variable.rereads (h v hv)
  refine ⟨?_, hvars.encode⟩
  show (Variable.codec.list.ofValue (Variable.codec.list.encode r.vars) >>= fun vs =>
    (declareAll vs {}).toReport.mapError fun e => .data (.registry e)).outcome = _
  have hdeclared : (declareAll (r.unsized.mapExprs .bare).vars {}).toReport.outcome =
      .ok (r.unsized.mapExprs .bare) := by
    have hnames := (r.unsized.mapExprs .bare).nodup_names
    exact Attempt.toReport_eq_ok_iff.2
      ⟨succeeds_declareAll hnames, eq_of_vars_eq (vars_ofList hnames)⟩
  rw [Report.outcome_bind, hvars.decode]
  show (declareAll (r.unsized.mapExprs .bare).vars {}).toReport.outcome.mapError _ = _
  rw [hdeclared]
  rfl

end Registry

/-! ## Automata -/

theorem Guard.rereads {g : Guard} (h : g.exp.isEncodable = true) :
    record.codec.Rereads g (g.mapExprs .bare) :=
  Record.rereads (by decide) rfl
    ⟨(Codec.rereads_expr h).required _, Field.rereads_comment _, trivial⟩

theorem Probability.rereads {p : Probability} (h : p.exp.isEncodable = true) :
    record.codec.Rereads p (p.mapExprs .bare) :=
  Record.rereads (by decide) rfl
    ⟨(Codec.rereads_expr h).required _, Field.rereads_comment _, trivial⟩

theorem Assignment.rereads {a : Assignment}
    (h : a.target.isEncodable = true ∧ a.value.isEncodable = true) :
    record.codec.Rereads a (a.mapExprs .bare) :=
  Record.rereads (by decide) rfl
    ⟨(Codec.rereads_expr h.1).required _, (Codec.rereads_expr h.2).required _,
      Field.rereads_comment _, trivial⟩

theorem Destination.rereads {d : Destination} (h : d.Encodable) :
    record.codec.Rereads d (d.mapExprs .bare) :=
  Record.rereads (by decide) rfl
    ⟨(Codec.rereads_string _).required _,
      Field.rereads_optional (Record.encode_ne_null _)
        (fun p hp => Probability.rereads (h.probability p hp)) _,
      (Codec.Rereads.list fun a ha =>
        Assignment.rereads (h.assignments a ha)).elidedList (by simp) _,
      Field.rereads_comment _, trivial⟩

theorem Edge.rereads {e : Edge} (h : e.Encodable) : record.codec.Rereads e (e.mapExprs .bare) :=
  Record.rereads (by decide) rfl
    ⟨(Codec.rereads_string _).required _, Field.rereads_optionalString _ _,
      Field.rereads_optional (Record.encode_ne_null _) (fun g hg => Guard.rereads (h.guard g hg)) _,
      (Codec.Rereads.list fun d hd => Destination.rereads (h.destinations d hd)).required _,
      Field.rereads_comment _, trivial⟩

theorem Location.rereads (l : Location) : record.codec.Rereads l l :=
  Record.rereads (by decide) rfl
    ⟨(Codec.rereads_string _).required _, Field.rereads_comment _, trivial⟩

theorem Automaton.rereads {a : Automaton} (h : a.Encodable) :
    codec.Rereads a (a.unsized.mapExprs .bare) :=
  Record.rereads (by decide) rfl
    ⟨(Codec.rereads_string _).required _, (Registry.rereads h.locals).defaulted _ _,
      (Codec.Rereads.list_self Location.rereads _).required _,
      (Codec.Rereads.list_self Codec.rereads_string _).required _,
      (Codec.Rereads.list fun e he => Edge.rereads (h.edges e he)).defaulted _ _,
      Field.rereads_comment _, trivial⟩

/-! ## Models -/

theorem Element.rereads (e : Element) : record.codec.Rereads e e :=
  Record.rereads (by decide) rfl
    ⟨(Codec.rereads_string _).required _,
      (Codec.Rereads.list_self Codec.rereads_string _).elidedList rfl _, trivial⟩

theorem Sync.rereads (s : Sync) : record.codec.Rereads s s := by
  have hentry (x : Option String) : Codec.string.option.Rereads x x := by
    cases x <;> exact ⟨rfl, rfl⟩
  exact Record.rereads (by decide) rfl
    ⟨(Codec.Rereads.list_self hentry _).required _, Field.rereads_optionalString _ _,
      Field.rereads_comment _, trivial⟩

theorem Composition.rereads (c : Composition) : record.codec.Rereads c c :=
  Record.rereads (by decide) rfl
    ⟨(Codec.Rereads.list_self Element.rereads _).required _,
      (Codec.Rereads.list_self Sync.rereads _).elidedList rfl _, Field.rereads_comment _, trivial⟩

theorem Action.rereads (a : Action) : record.codec.Rereads a a :=
  Record.rereads (by decide) rfl
    ⟨(Codec.rereads_string _).required _, Field.rereads_comment _, trivial⟩

theorem Property.rereads {p : Property} (h : p.expression.isEncodable = true) :
    record.codec.Rereads p (p.mapExprs .bare) :=
  Record.rereads (by decide) rfl
    ⟨(Codec.rereads_string _).required _, (Codec.rereads_expr h).required _,
      Field.rereads_comment _, trivial⟩

theorem Feature.rereads (f : Feature) : codec.Rereads f f :=
  Codec.rereads_choice (by cases f <;> rfl)

theorem ModelType.rereads (t : ModelType) : codec.Rereads t t :=
  Codec.rereads_choice (by cases t <;> rfl)

theorem Model.rereads {m : Model} (h : m.Encodable) : codec.Rereads m m.reloaded := by
  have hautomata : Automaton.codec.list.Rereads m.automata m.reloaded.automata := by
    rw [show m.reloaded.automata = m.automata.map _ from List.map_map]
    exact Codec.Rereads.list fun a ha => Automaton.rereads (h.automata a ha)
  exact Record.rereads (by decide) rfl
    ⟨(Codec.rereads_byte _).required _, (Codec.rereads_string _).required _,
      m.type.rereads.required _, (Codec.Rereads.list_self Feature.rereads _).defaulted _ _,
      (Codec.Rereads.list_self Action.rereads _).defaulted _ _,
      (Registry.rereads h.globals).defaulted _ _, hautomata.required _,
      m.system.rereads.required _,
      (Codec.Rereads.list fun p hp => Property.rereads (h.properties p hp)).defaulted _ _, trivial⟩

end AutomataNet
