import AutomataNet.Expr.Codec
import AutomataNet.Proofs.Outcome
import AutomataNet.Proofs.Relabeling
/-!
# Writing and reading expressions

Reading undoes writing, except for comments on literals and identifiers, for which the written form
has no room (`Expr.ofJson_toJson`). Whatever is read can be written (`Expr.isEncodable_of_ofJson`),
so that an expression that was read once comes back as it is.
-/

namespace AutomataNet

/-! ## Doubles

An integer that does not fit a literal is read as a double. Rounding it takes two shifts, and both
leave the exponent far below the largest one. -/

section

open Float.Model Float.Model.UnpackedFloat

theorem mantissa_shiftRight_le (em : ExtendedMantissa) (k : Nat) :
    (em >>> k).mantissa ≤ em.mantissa := by
  induction k with
  | zero => exact le_rfl
  | succ k ih => exact (Nat.div_le_self _ 2).trans ih

theorem roundedMantissa_le (em : ExtendedMantissa) : em.roundedMantissa ≤ em.mantissa + 1 := by
  unfold ExtendedMantissa.roundedMantissa Accuracy.roundToNearestEven
  split <;> omega

theorem mantissa_shiftToTargetExponent_le (m : Nat) (e : Int) :
    (shiftToTargetExponent .binary64 m e .exact).1.mantissa ≤ m :=
  mantissa_shiftRight_le _ _

theorem exponent_shiftToTargetExponent_le {m k : Nat} (hm : m < 2 ^ k) (e : Int) :
    (shiftToTargetExponent .binary64 m e .exact).2 ≤ max (k + e) 0 := by
  have hlog : m.log2 ≤ k := by
    by_cases h0 : m = 0
    · simp [h0]
    · exact ((Nat.log2_lt h0).2 hm).le
  simp only [shiftToTargetExponent, shiftToExponent, Format.targetExponent, Format.minExponent,
    Format.mantissaBits, totalExponent]
  omega

theorem isFinite_pack {s : Sign} {m : Nat} {e : Int} (hm : 0 < m) (he : e ≤ 971) :
    (Float.Model.pack (.finite s m e hm)).isFinite = true := by
  -- only the largest exponent is kept for infinity and NaN
  have hexp : ∀ (x : BitVec 11), x ≠ -1#11 → ∀ (y : BitVec 52),
      (UnpackedFloat.unpack .binary64 (packComponents .binary64 s x y)).isFinite = true := by
    intro x hx y
    simp only [UnpackedFloat.unpack, unpackExponent_packComponents]
    rw [if_neg hx]
    split
    · split <;> rfl
    · rfl
  have hbias : (e + Format.binary64.exponentBias + (52 : Nat)).toNat < 2047 := by
    rw [show Format.binary64.exponentBias = 1023 from rfl]
    omega
  simp only [Float.Model.isFinite, Float.Model.unpack, Float.Model.pack, UnpackedFloat.pack]
  rw [if_neg (by omega)]
  split
  · apply hexp
    intro h
    have h := congrArg BitVec.toNat h
    rw [BitVec.toNat_ofNat, Nat.mod_eq_of_lt (by omega), show (-1#11).toNat = 2047 from rfl] at h
    omega
  · exact hexp _ (by decide) _

/-- Rounding shifts twice, each time by the number of bits at most. -/
theorem isFinite_pack_round {s : Sign} {m k : Nat} {e : Int} (hm : m + 1 < 2 ^ k)
    (hk : 2 * k ≤ 971) (he : e ≤ 0) :
    (Float.Model.pack (roundWithAccuracy .binary64 s m e .exact)).isFinite = true := by
  have he₁ := exponent_shiftToTargetExponent_le (show m < 2 ^ k by omega) e
  have hm₁ : (shiftToTargetExponent .binary64 m e .exact).1.roundedMantissa < 2 ^ k :=
    calc _ ≤ _ := roundedMantissa_le _
      _ ≤ m + 1 := Nat.succ_le_succ (mantissa_shiftToTargetExponent_le m e)
      _ < _ := hm
  have he₂ := exponent_shiftToTargetExponent_le hm₁ (shiftToTargetExponent .binary64 m e .exact).2
  unfold roundWithAccuracy
  dsimp only
  split
  · cases s <;> rfl
  · exact isFinite_pack _ (by omega)

theorem isFinite_ofScientific {n : Nat} (hn : n < 2 ^ 64) :
    (Float.Model.ofScientific n 0).isFinite = true := by
  have hbits : (2 : Int) ^ Format.binary64.exponentBits = 2048 := rfl
  unfold Float.Model.ofScientific UnpackedFloat.ofScientific
  split
  · rfl
  · rw [if_neg (by omega), if_neg (by omega), if_pos le_rfl]
    simp only [UnpackedFloat.mul]
    have hm : n <<< Format.binary64.mantissaBits * 10 ^ Int.toNat 0 + 1 < 2 ^ 118 := by
      rw [Nat.shiftLeft_eq, show Format.binary64.mantissaBits = 53 from rfl, Int.toNat_zero]
      omega
    exact isFinite_pack_round hm (by omega) (by decide)

/-- The doubles nearest to integers of 64 bits are finite. -/
theorem isFinite_ofInt {n : Int} (hlo : 2 ^ 63 ≤ n) (hhi : n < 2 ^ 64) :
    (Float.ofInt n).isFinite = true := by
  obtain ⟨n, rfl⟩ := Int.eq_ofNat_of_zero_le (show 0 ≤ n by omega)
  have hof : Float.ofInt n = ⟨Float.Model.ofScientific n 0⟩ := by
    show Float.ofScientific n false 0 = _
    unfold Float.ofScientific
    rw [dif_neg (by omega)]
    rfl
  rw [hof]
  exact isFinite_ofScientific (by omega)

end

/-! ## JSON values -/

namespace Json

mutual

/-- What a JSON text can stand for: the names of fields differ, integers have 64 bits, with a sign
or without, and reals are finite. -/
def isProper : Json → Bool
  | .null => true
  | .bool _ => true
  | .num (.int n) => -2 ^ 63 ≤ n && n < 2 ^ 64
  | .num (.real x) => x.isFinite
  | .str _ => true
  | .arr items => itemsProper items
  | .obj fields => (fields.map (·.1)).Nodup && fieldsProper fields

def itemsProper : List Json → Bool
  | [] => true
  | j :: js => isProper j && itemsProper js

def fieldsProper : List (String × Json) → Bool
  | [] => true
  | (_, j) :: fs => isProper j && fieldsProper fs

end

end Json

/-! ## Expressions -/

namespace Expr

/-- The roles differ, and none has another use as a key. -/
def rolesEncodable (roles : List String) : Bool :=
  roles.Nodup && roles.all (!isReserved ·)

theorem rolesEncodable_iff {roles : List String} : rolesEncodable roles = true ↔
    roles.Nodup ∧ ∀ role ∈ roles, isReserved role = false := by
  simp [rolesEncodable]

mutual

/-- The roles under each operator can be told apart, and reals are finite. -/
def isEncodable : Expr → Bool
  | .literal (.real x) _ => x.isFinite
  | .literal _ _ => true
  | .identifier _ _ => true
  | .operator _ operands _ => rolesEncodable (operands.map (·.1)) && operandsEncodable operands
  | .arrayValue elements _ => listEncodable elements
  | .distribution _ args _ => listEncodable args

def listEncodable : List Expr → Bool
  | [] => true
  | e :: es => isEncodable e && listEncodable es

def operandsEncodable : List (String × Expr) → Bool
  | [] => true
  | (_, e) :: es => isEncodable e && operandsEncodable es

end

/-- The expression without the comments of literals and identifiers. -/
def bare (e : Expr) : Expr := e.relabel .eraseLeaves

mutual

/-- The comments of the operators, array values and distributions, from left to right and each
before those below it. -/
def comments : Expr → List (Option String)
  | .literal _ _ => []
  | .identifier _ _ => []
  | .operator _ operands c => c :: operandsComments operands
  | .arrayValue elements c => c :: listComments elements
  | .distribution _ args c => c :: listComments args

def listComments : List Expr → List (Option String)
  | [] => []
  | e :: es => comments e ++ listComments es

def operandsComments : List (String × Expr) → List (Option String)
  | [] => []
  | (_, e) :: es => comments e ++ operandsComments es

end

end Expr

/-! ## What is kept without the comments -/

theorem Value.same_refl (v : Value) : v.same v = true := by
  cases v <;> simp [Value.same, sameReal]

namespace Expr

mutual

theorem same_relabel_self (ρ : Relabeling) : ∀ e : Expr, (e.relabel ρ).same e = true
  | .literal v _ => v.same_refl
  | .identifier name _ => by simp [relabel, same]
  | .operator op operands c => by simp [relabel, same, sameOperands_relabel_self ρ operands]
  | .arrayValue elements c => by simp [relabel, same, sameList_relabel_self ρ elements]
  | .distribution name args c => by simp [relabel, same, sameList_relabel_self ρ args]

theorem sameList_relabel_self (ρ : Relabeling) :
    ∀ es : List Expr, sameList (relabelList ρ es) es = true
  | [] => rfl
  | e :: es => by simp [relabelList, sameList, same_relabel_self ρ e, sameList_relabel_self ρ es]

theorem sameOperands_relabel_self (ρ : Relabeling) :
    ∀ es : List (String × Expr), sameOperands (relabelOperands ρ es) es = true
  | [] => rfl
  | (role, e) :: es => by
    simp [relabelOperands, sameOperands, same_relabel_self ρ e, sameOperands_relabel_self ρ es]

end

mutual

theorem comments_bare : ∀ e : Expr, e.bare.comments = e.comments
  | .literal _ _ | .identifier _ _ => rfl
  | .operator _ operands c => congrArg (c :: ·) (operandsComments_bare operands)
  | .arrayValue elements c => congrArg (c :: ·) (listComments_bare elements)
  | .distribution _ args c => congrArg (c :: ·) (listComments_bare args)

theorem listComments_bare :
    ∀ es : List Expr, listComments (relabelList .eraseLeaves es) = listComments es
  | [] => rfl
  | e :: es => congrArg₂ (· ++ ·) (comments_bare e) (listComments_bare es)

theorem operandsComments_bare : ∀ es : List (String × Expr),
    operandsComments (relabelOperands .eraseLeaves es) = operandsComments es
  | [] => rfl
  | (_, e) :: es => congrArg₂ (· ++ ·) (comments_bare e) (operandsComments_bare es)

end

/-! ## Reading an object -/

/-- What an object with the given header and fields stands for. -/
inductive Header.Selects (fields : List (String × Json)) (h : Header) : Expr → Prop
  | constant {symbol : String} {c : Constant} (hc : h.constant = some symbol)
      (hs : Constant.ofSymbol? symbol = some c) :
      Selects fields h (.literal (.constant c) h.comment)
  | distribution {name : String} {args : List Expr} (hc : h.constant = none)
      (hd : h.distribution = some name) (ha : listOfField "args" fields = .ok args) :
      Selects fields h (.distribution name args h.comment)
  | arrayValue {elements : List Expr} (hc : h.constant = none) (hd : h.distribution = none)
      (ho : h.op = some "av") (he : listOfField "elements" fields = .ok elements) :
      Selects fields h (.arrayValue elements h.comment)
  | operator {spelling : String} {op : Op} {operands : List (String × Expr)}
      (hc : h.constant = none) (hd : h.distribution = none) (ho : h.op = some spelling)
      (hav : spelling ≠ "av") (hs : Op.ofSpelling? spelling = some op)
      (hf : operandsOfFields fields = .ok operands) :
      Selects fields h (.operator op operands h.comment)

theorem ofJson_obj_eq_ok_iff {fields : List (String × Json)} {e : Expr} :
    ofJson (.obj fields) = .ok e ↔
      ∃ h, Header.read {} fields = .ok h ∧ Header.Selects fields h e := by
  rw [ofJson, Except.bind_eq_ok_iff]
  refine exists_congr fun h => and_congr_right fun _ => ?_
  constructor
  · intro he
    split at he
    · rename_i hc
      split at he
      · rename_i hs
        obtain rfl := Except.ok.inj he
        exact .constant hc hs
      · contradiction
    · rename_i hc hd
      obtain ⟨args, ha, he⟩ := Except.bind_eq_ok_iff.1 he
      obtain rfl := Except.ok.inj he
      exact .distribution hc hd ha
    · rename_i op hc hd ho
      split at he
      · rename_i hav
        obtain ⟨elements, hl, he⟩ := Except.bind_eq_ok_iff.1 he
        obtain rfl := Except.ok.inj he
        exact .arrayValue hc hd (hav ▸ ho) hl
      · rename_i hav
        split at he
        · contradiction
        · rename_i hs
          obtain ⟨operands, hf, he⟩ := Except.bind_eq_ok_iff.1 he
          obtain rfl := Except.ok.inj he
          exact .operator hc hd ho hav hs hf
    · contradiction
  · intro hsel
    cases hsel with
    | constant hc hs => simp [hc, hs]
    | distribution hc hd ha => simp [hc, hd, ha, Except.bind_eq_ok_iff]
    | arrayValue hc hd ho hl => simp [hc, hd, ho, hl, Except.bind_eq_ok_iff]
    | operator hc hd ho hav hs hf => simp [hc, hd, ho, hav, hs, hf, Except.bind_eq_ok_iff]

/-! ## Reading what was written -/

/-- Operands leave no trace in the header. -/
theorem Header.read_operandsToJson {es : List (String × Expr)}
    (h : ∀ role ∈ es.map (·.1), isReserved role = false) (x : Header)
    (fs : List (String × Json)) : x.read (operandsToJson es ++ fs) = x.read fs := by
  induction es with
  | nil => rfl
  | cons e es ih =>
    obtain ⟨he, hes⟩ := List.forall_mem_cons.1 h
    simp [operandsToJson, Header.read, he, ih hes]

theorem Header.read_commentField {x : Header} (hx : x.comment = none) (c : Option String) :
    x.read (commentField c) = .ok { x with comment := c } := by
  cases c with
  | none => exact congrArg Except.ok (congrArg (fun c => { x with comment := c }) hx)
  | some c => rfl

theorem operandsOfFields_append_commentField (fs : List (String × Json)) (c : Option String) :
    operandsOfFields (fs ++ commentField c) = operandsOfFields fs := by
  induction fs with
  | nil => cases c <;> rfl
  | cons f fs ih => simp [operandsOfFields, ih]

theorem map_operandsToJson (es : List (String × Expr)) :
    (operandsToJson es).map (·.1) = es.map (·.1) := by
  induction es with
  | nil => rfl
  | cons e es ih => simp [operandsToJson, ih]

theorem ofNumber_toInt (n : Int64) : ofNumber (.int n.toInt) = .int n := by
  have hlo : Int64.minValue.toInt ≤ n.toInt := n.le_toInt
  have hhi : n.toInt ≤ Int64.maxValue.toInt := Int.le_of_lt_add_one n.toInt_lt
  rw [ofNumber, if_pos (by rw [decide_eq_true hlo, decide_eq_true hhi]; rfl), Int64.ofInt_toInt]

theorem spelling_ne_av (op : Op) : op.spelling ≠ "av" := by
  cases op <;> decide

mutual

/-- Reading undoes writing. -/
theorem ofJson_toJson : ∀ e : Expr, e.isEncodable = true → ofJson e.toJson = .ok e.bare
  | .literal (.bool _) _, _ => rfl
  | .literal (.int n) _, _ => by
    rw [toJson, Value.toJson, ofJson, ofNumber_toInt]
    rfl
  | .literal (.real _) _, _ => rfl
  | .literal (.constant c) _, _ => by cases c <;> rfl
  | .identifier name _, _ => rfl
  | .operator op operands c, h => by
    simp only [isEncodable, Bool.and_eq_true, rolesEncodable_iff] at h
    obtain ⟨⟨-, hroles⟩, hoperands⟩ := h
    have hread : Header.read { op := some op.spelling } (operandsToJson operands ++ commentField c)
        = .ok { op := some op.spelling, comment := c } := by
      rw [Header.read_operandsToJson hroles, Header.read_commentField rfl]
    have hfields : operandsOfFields (operandsToJson operands ++ commentField c) =
        .ok (relabelOperands .eraseLeaves operands) := by
      rw [operandsOfFields_append_commentField,
        operandsOfFields_operandsToJson operands hoperands hroles]
    exact ofJson_obj_eq_ok_iff.2 ⟨_, hread,
      .operator rfl rfl rfl (spelling_ne_av op) op.ofSpelling?_spelling hfields⟩
  | .arrayValue elements c, h => by
    have hread : Header.read { op := some "av" } (commentField c) =
        .ok { op := some "av", comment := c } := Header.read_commentField rfl c
    have hlist : listOfField "elements" (("op", .str "av") ::
        ("elements", .arr (listToJson elements)) :: commentField c) =
        .ok (relabelList .eraseLeaves elements) :=
      listOfJson_listToJson elements h
    exact ofJson_obj_eq_ok_iff.2 ⟨_, hread, .arrayValue rfl rfl rfl hlist⟩
  | .distribution name args c, h => by
    have hread : Header.read { distribution := some name } (commentField c) =
        .ok { distribution := some name, comment := c } := Header.read_commentField rfl c
    have hlist : listOfField "args" (("distribution", .str name) ::
        ("args", .arr (listToJson args)) :: commentField c) =
        .ok (relabelList .eraseLeaves args) :=
      listOfJson_listToJson args h
    exact ofJson_obj_eq_ok_iff.2 ⟨_, hread, .distribution rfl rfl hlist⟩

theorem listOfJson_listToJson : ∀ es : List Expr, listEncodable es = true →
    listOfJson (listToJson es) = .ok (relabelList .eraseLeaves es)
  | [], _ => rfl
  | e :: es, h => by
    simp only [listEncodable, Bool.and_eq_true] at h
    have hes := listOfJson_listToJson es h.2
    rw [listToJson, listOfJson, relabelList]
    exact Except.bind_eq_ok_iff.2 ⟨_, ofJson_toJson e h.1, Except.bind_eq_ok_iff.2 ⟨_, hes, rfl⟩⟩

theorem operandsOfFields_operandsToJson : ∀ es : List (String × Expr),
    operandsEncodable es = true → (∀ role ∈ es.map (·.1), isReserved role = false) →
      operandsOfFields (operandsToJson es) = .ok (relabelOperands .eraseLeaves es)
  | [], _, _ => rfl
  | (role, e) :: es, h, hroles => by
    simp only [operandsEncodable, Bool.and_eq_true] at h
    obtain ⟨hrole, hroles⟩ := List.forall_mem_cons.1 hroles
    have hes := operandsOfFields_operandsToJson es h.2 hroles
    rw [operandsToJson, operandsOfFields, relabelOperands, hrole, if_neg Bool.false_ne_true]
    exact Except.bind_eq_ok_iff.2 ⟨_, ofJson_toJson e h.1, Except.bind_eq_ok_iff.2 ⟨_, hes, rfl⟩⟩

end

/-! ## What is written -/

theorem nodup_keys {roles : List String} (h : rolesEncodable roles = true) (c : Option String) :
    ("op" :: (roles ++ (commentField c).map (·.1))).Nodup := by
  obtain ⟨hn, hr⟩ := rolesEncodable_iff.1 h
  have hop : "op" ∉ roles := fun h => absurd (hr _ h) (by decide)
  have hcomment : "comment" ∉ roles := fun h => absurd (hr _ h) (by decide)
  cases c with
  | none => simpa [commentField, hop] using hn
  | some c =>
    show ("op" :: (roles ++ ["comment"])).Nodup
    simpa [List.nodup_append, hop, hn] using fun role hrole => ne_of_mem_of_not_mem hrole hcomment

theorem fieldsProper_append_commentField (fs : List (String × Json)) (c : Option String) :
    Json.fieldsProper (fs ++ commentField c) = Json.fieldsProper fs := by
  induction fs with
  | nil => cases c <;> rfl
  | cons f fs ih => simp [Json.fieldsProper, ih]

mutual

theorem isProper_toJson : ∀ e : Expr, e.isEncodable = true → e.toJson.isProper = true
  | .literal (.bool _) _, _ => rfl
  | .literal (.int n) _, _ => by
    have hlo := n.le_toInt
    have hhi := n.toInt_lt
    simp only [toJson, Value.toJson, Json.isProper, Bool.and_eq_true, decide_eq_true_eq]
    omega
  | .literal (.real _) _, h => h
  | .literal (.constant _) _, _ => rfl
  | .identifier _ _, _ => rfl
  | .operator op operands c, h => by
    simp only [isEncodable, Bool.and_eq_true] at h
    have hkeys := nodup_keys h.1 c
    simp only [toJson, Json.isProper, List.map_cons, List.map_append, map_operandsToJson, hkeys,
      decide_true, Json.fieldsProper, fieldsProper_append_commentField,
      fieldsProper_operandsToJson operands h.2, Bool.and_self]
  | .arrayValue elements c, h => by
    simp only [isEncodable] at h
    cases c <;> simp [toJson, commentField, Json.isProper, Json.fieldsProper,
      itemsProper_listToJson elements h]
  | .distribution name args c, h => by
    simp only [isEncodable] at h
    cases c <;> simp [toJson, commentField, Json.isProper, Json.fieldsProper,
      itemsProper_listToJson args h]

theorem itemsProper_listToJson :
    ∀ es : List Expr, listEncodable es = true → Json.itemsProper (listToJson es) = true
  | [], _ => rfl
  | e :: es, h => by
    simp only [listEncodable, Bool.and_eq_true] at h
    simp [listToJson, Json.itemsProper, isProper_toJson e h.1, itemsProper_listToJson es h.2]

theorem fieldsProper_operandsToJson : ∀ es : List (String × Expr),
    operandsEncodable es = true → Json.fieldsProper (operandsToJson es) = true
  | [], _ => rfl
  | (role, e) :: es, h => by
    simp only [operandsEncodable, Bool.and_eq_true] at h
    simp [operandsToJson, Json.fieldsProper, isProper_toJson e h.1,
      fieldsProper_operandsToJson es h.2]

end

/-! ## What can be read -/

theorem map_operandsOfFields {fs : List (String × Json)} {es : List (String × Expr)}
    (h : operandsOfFields fs = .ok es) :
    es.map (·.1) = (fs.map (·.1)).filter (!isReserved ·) := by
  induction fs generalizing es with
  | nil =>
    obtain rfl := Except.ok.inj h
    rfl
  | cons f fs ih =>
    rw [operandsOfFields] at h
    split at h
    · rename_i hf
      simp [hf, ih h]
    · rename_i hf
      simp only [Except.bind_eq_ok_iff, Except.ok.injEq] at h
      obtain ⟨e, -, es, hes, rfl⟩ := h
      simp [hf, ih hes]

theorem isEncodable_ofNumber {n : Number} {c : Option String} (h : (Json.num n).isProper = true) :
    (Expr.literal (ofNumber n) c).isEncodable = true := by
  cases n with
  | real x => exact h
  | int n =>
    simp only [Json.isProper, Bool.and_eq_true, decide_eq_true_eq] at h
    have hmin : Int64.minValue.toInt = -2 ^ 63 := by decide
    have hmax : Int64.maxValue.toInt = 2 ^ 63 - 1 := by decide
    rw [ofNumber, hmin, hmax]
    split
    · rfl
    · rename_i hout
      simp only [Bool.and_eq_true, decide_eq_true_eq, not_and] at hout
      have hlarge := hout h.1
      exact isFinite_ofInt (by omega) h.2

mutual

/-- Whatever is read can be written. -/
theorem isEncodable_of_ofJson : ∀ {j : Json} {e : Expr}, j.isProper = true → ofJson j = .ok e →
    e.isEncodable = true
  | .null, _, _, h => by simp [ofJson] at h
  | .bool _, _, _, h => by
    obtain rfl := Except.ok.inj h
    rfl
  | .num _, _, hj, h => by
    obtain rfl := Except.ok.inj h
    exact isEncodable_ofNumber hj
  | .str _, _, _, h => by
    obtain rfl := Except.ok.inj h
    rfl
  | .arr _, _, _, h => by simp [ofJson] at h
  | .obj fields, e, hj, h => by
    simp only [Json.isProper, Bool.and_eq_true, decide_eq_true_eq] at hj
    obtain ⟨x, -, hsel⟩ := ofJson_obj_eq_ok_iff.1 h
    cases hsel with
    | constant _ _ => rfl
    | distribution _ _ ha => exact listEncodable_of_listOfField hj.2 ha
    | arrayValue _ _ _ he => exact listEncodable_of_listOfField hj.2 he
    | operator _ _ _ _ _ hf =>
      have hkeys := map_operandsOfFields hf
      simp only [isEncodable, Bool.and_eq_true, rolesEncodable_iff, hkeys]
      exact ⟨⟨hj.1.filter _, fun role hrole => by simpa using List.of_mem_filter hrole⟩,
        operandsEncodable_of_operandsOfFields hj.2 hf⟩

theorem listEncodable_of_listOfJson : ∀ {js : List Json} {es : List Expr},
    Json.itemsProper js = true → listOfJson js = .ok es → listEncodable es = true
  | [], es, _, h => by
    obtain rfl := Except.ok.inj h
    rfl
  | j :: js, es, hj, h => by
    simp only [Json.itemsProper, Bool.and_eq_true] at hj
    rw [listOfJson] at h
    obtain ⟨x, hx, h⟩ := Except.bind_eq_ok_iff.1 h
    obtain ⟨xs, hxs, h⟩ := Except.bind_eq_ok_iff.1 h
    obtain rfl := Except.ok.inj h
    simp [listEncodable, isEncodable_of_ofJson hj.1 hx, listEncodable_of_listOfJson hj.2 hxs]

theorem listEncodable_of_listOfField :
    ∀ {fs : List (String × Json)} {es : List Expr} {key : String},
      Json.fieldsProper fs = true → listOfField key fs = .ok es → listEncodable es = true
  | [], _, _, _, h => by simp [listOfField] at h
  | (k, .arr items) :: fs, es, key, hj, h => by
    simp only [Json.fieldsProper, Json.isProper, Bool.and_eq_true] at hj
    rw [listOfField] at h
    split at h
    · exact listEncodable_of_listOfJson hj.1 h
    · exact listEncodable_of_listOfField hj.2 h
  | (k, .null) :: fs, es, key, hj, h | (k, .bool _) :: fs, es, key, hj, h
  | (k, .num _) :: fs, es, key, hj, h | (k, .str _) :: fs, es, key, hj, h
  | (k, .obj _) :: fs, es, key, hj, h => by
    simp only [Json.fieldsProper, Bool.and_eq_true] at hj
    simp only [listOfField] at h
    split at h
    · contradiction
    · exact listEncodable_of_listOfField hj.2 h

theorem operandsEncodable_of_operandsOfFields :
    ∀ {fs : List (String × Json)} {es : List (String × Expr)},
      Json.fieldsProper fs = true → operandsOfFields fs = .ok es → operandsEncodable es = true
  | [], es, _, h => by
    obtain rfl := Except.ok.inj h
    rfl
  | (key, j) :: fs, es, hj, h => by
    simp only [Json.fieldsProper, Bool.and_eq_true] at hj
    rw [operandsOfFields] at h
    split at h
    · exact operandsEncodable_of_operandsOfFields hj.2 h
    · obtain ⟨x, hx, h⟩ := Except.bind_eq_ok_iff.1 h
      obtain ⟨xs, hxs, h⟩ := Except.bind_eq_ok_iff.1 h
      obtain rfl := Except.ok.inj h
      simp [operandsEncodable, isEncodable_of_ofJson hj.1 hx,
        operandsEncodable_of_operandsOfFields hj.2 hxs]

end

end Expr

/-! ## Both ways -/

/-- An expression that can be written is read back without the comments of its literals and
identifiers. An expression that was read can be written, and is read back equal and with the same
comments. -/
theorem expression_roundTrip :
    (∀ e : Expr, e.isEncodable = true →
      e.toJson.isProper = true ∧ Expr.ofJson e.toJson = .ok e.bare) ∧
    ∀ (j : Json) (e : Expr), j.isProper = true → Expr.ofJson j = .ok e →
      e.isEncodable = true ∧ Expr.ofJson e.toJson = .ok e.bare ∧ e.bare.same e = true ∧
        e.bare.comments = e.comments := by
  refine ⟨fun e he => ⟨e.isProper_toJson he, e.ofJson_toJson he⟩, fun j e hj h => ?_⟩
  have he := Expr.isEncodable_of_ofJson hj h
  exact ⟨he, e.ofJson_toJson he, e.same_relabel_self _, e.comments_bare⟩

/-- A speed with a disturbance. -/
def disturbed : Expr :=
  .operator .plus
    [("left", .identifier "speed" (some "measured")),
     ("right", .distribution "Normal" [.literal (.real 0.5) none, .ofInt 3] (some "noise"))]
    (some "actual speed")

/-- An array value with a field that means nothing and an integer that only fits a real. -/
def readings : Json :=
  .obj [("comment", .str "readings"), ("unit", .null), ("op", .str "av"),
    ("elements", .arr [.int 9223372036854775808, .str "speed"])]

theorem expression_roundTrip_readings :
    disturbed.isEncodable = true ∧ disturbed.toJson.isProper = true ∧
      Expr.ofJson disturbed.toJson = .ok disturbed.bare ∧
      ∃ e, readings.isProper = true ∧ Expr.ofJson readings = .ok e ∧ e.isEncodable = true ∧
        Expr.ofJson e.toJson = .ok e.bare ∧ e.bare.same e = true ∧
        e.bare.comments = [some "readings"] := by
  have hwritten : disturbed.isEncodable = true := by decide +kernel
  have hproper : readings.isProper = true := by decide +kernel
  have hread : Expr.ofJson readings =
      .ok (.arrayValue [.lit (.real (Float.ofInt 9223372036854775808)), .var "speed"]
        (some "readings")) := rfl
  obtain ⟨hwrite, hback⟩ := expression_roundTrip
  obtain ⟨hjson, hdecoded⟩ := hwrite disturbed hwritten
  obtain ⟨he, hagain, hsame, hcomments⟩ := hback readings _ hproper hread
  exact ⟨hwritten, hjson, hdecoded, _, hproper, hread, he, hagain, hsame, hcomments⟩

end AutomataNet
