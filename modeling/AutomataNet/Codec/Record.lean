import AutomataNet.Codec.Basic
/-!
Records: codecs of structures, described by their fields.

A record is written as an object with its fields in order. It is read from an object with the
fields in any order, or from an array of the field values in order. Unknown fields are skipped.
-/

namespace AutomataNet

/-- A field of a record. -/
structure Field (α : Type) where
  name : String
  /-- `none` leaves the field out. -/
  write : α → Option Json
  read : Source → Node → Report DocumentError α
  /-- The value of a field that is missing; `none` if it must be there. -/
  absent : Option α

namespace Field

variable {α : Type}

/-- A field that has to be there. -/
def required (name : String) (c : Codec α) : Field α := ⟨name, some ∘ c.encode, c.decode, none⟩

/-- A field that may be missing or `null`, and is left out when it has no value. -/
def optional (name : String) (c : Codec α) : Field (Option α) :=
  ⟨name, fun x => x.map c.encode, c.option.decode, some none⟩

/-- A field that may be missing, and is written always. -/
def defaulted (name : String) (c : Codec α) (value : α) : Field α :=
  ⟨name, some ∘ c.encode, c.decode, some value⟩

/-- A field that may be missing, and is left out when it has this value. -/
def elided (name : String) (c : Codec α) (value : α) (isValue : α → Bool) : Field α :=
  ⟨name, fun a => if isValue a then none else some (c.encode a), c.decode, some value⟩

/-- A list that is left out when it is empty. -/
def elidedList (name : String) (c : Codec α) : Field (List α) :=
  elided name c.list [] List.isEmpty

/-- A truth value that is left out when it is false. -/
def flag (name : String) : Field Bool := elided name .bool false (!·)

def comment : Field (Option String) := optional "comment" .string

end Field

/-- The fields of a record in order. The indices are the type of a row of their values, and that of
the values found so far while an object is read. -/
inductive Fields : Type → Type → Type 1 where
  | nil : Fields Unit Unit
  | cons {α β σ : Type} (field : Field α) (rest : Fields β σ) : Fields (α × β) (Option α × σ)

namespace Fields

variable {ρ σ : Type}

def count : {ρ σ : Type} → Fields ρ σ → Nat
  | _, _, .nil => 0
  | _, _, .cons _ rest => rest.count + 1

def write : {ρ σ : Type} → Fields ρ σ → ρ → List (String × Json)
  | _, _, .nil, _ => []
  | _, _, .cons f rest, (a, as) =>
    match f.write a with
    | some j => (f.name, j) :: rest.write as
    | none => rest.write as

/-! ## From an object -/

/-- No value is found yet. -/
def vacant : {ρ σ : Type} → Fields ρ σ → σ
  | _, _, .nil => ()
  | _, _, .cons _ rest => (none, rest.vacant)

/-- Reads the value of a field into its slot; `none` if there is no field of that name. -/
def put (source : Source) (key : String) (n : Node) :
    {ρ σ : Type} → Fields ρ σ → σ → Option (Report DocumentError σ)
  | _, _, .nil, _ => none
  | _, _, .cons f rest, (slot, slots) =>
    if f.name = key then
      match slot with
      | some _ => some (Codec.reject (.duplicateField key))
      | none => some ((fun a => (some a, slots)) <$> f.read source n)
    else (rest.put source key n slots).map ((slot, ·) <$> ·)

def readFields (fs : Fields ρ σ) (source : Source) :
    σ → List (Option String × Node) → Report DocumentError σ
  | slots, [] => .ok slots
  | _, (none, _) :: _ => .fail .unreadable
  | slots, (some key, n) :: rest =>
    match fs.put source key n slots with
    | some r => r >>= fun slots => fs.readFields source slots rest
    | none => if n.skippable then fs.readFields source slots rest else .fail .unreadable

/-- The row of values, once all fields are read. -/
def finish : {ρ σ : Type} → Fields ρ σ → σ → Except DataError ρ
  | _, _, .nil, _ => .ok ()
  | _, _, .cons f rest, (slot, slots) =>
    match slot.or f.absent with
    | some a => return (a, ← rest.finish slots)
    | none => .error (.missingField f.name)

/-! ## From an array -/

/-- Reads the values in order, and gives back the items left over. `index` counts the fields before,
`whole` says what is being read. -/
def readItems (source : Source) (whole : String) :
    {ρ σ : Type} → Fields ρ σ → Nat → List Node → Report DocumentError (ρ × List Node)
  | _, _, .nil, _, items => .ok ((), items)
  | _, _, .cons f rest, index, n :: items => do
    let a ← f.read source n
    let (as, left) ← rest.readItems source whole (index + 1) items
    return ((a, as), left)
  | _, _, .cons f rest, index, [] =>
    match f.absent with
    | some a => do
      let (as, left) ← rest.readItems source whole (index + 1) []
      return ((a, as), left)
    | none => Codec.reject (.invalidLength index whole)

end Fields

/-- A structure and its fields. -/
structure Record (α : Type) where
  name : String
  {Row Slots : Type}
  fields : Fields Row Slots
  toRow : α → Row
  ofRow : Row → α

namespace Record

variable {α : Type}

def decode (r : Record α) (source : Source) : Node → Report DocumentError α
  | .obj fields => do
    let slots ← r.fields.readFields source r.fields.vacant fields
    match r.fields.finish slots with
    | .ok row => return r.ofRow row
    | .error e => Codec.reject e
  | .arr items => do
    let whole := s!"struct {r.name} with {r.fields.count} elements"
    let (row, left) ← r.fields.readItems source whole 0 items
    if left.isEmpty then return r.ofRow row
    else
      match source with
      | .text => Report.fail .unreadable
      | .value => Codec.reject (.invalidLength items.length "fewer elements in array")
  | n => Codec.mismatch n s!"struct {r.name}"

def codec (r : Record α) : Codec α where
  encode a := .obj (r.fields.write (r.toRow a))
  decode := r.decode

end Record

end AutomataNet
