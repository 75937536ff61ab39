import AutomataNet.Codec.Record
/-!
Types of variables: basic types, bounded ones, and arrays of them.
-/

namespace AutomataNet

/-- A basic type. -/
inductive BasicType where
  | bool
  | int
  | real
deriving DecidableEq, Repr, Inhabited

def BasicType.spelling : BasicType → String
  | .bool => "bool"
  | .int => "int"
  | .real => "real"

def BasicType.codec : Codec BasicType := .choice ⟨[.bool, .int, .real], spelling⟩

/-- The type of a variable. Bounds are constant expressions, and both may be missing. -/
inductive VarType where
  | basic (type : BasicType)
  | bounded (base : BasicType) (lower upper : Option Expr)
  | array (base : VarType)
deriving BEq, Inhabited

namespace VarType

/-- Integers from `lower` to `upper`, both included. -/
def boundedInt (lower upper : Int64) : VarType :=
  .bounded .int (some (.ofInt lower)) (some (.ofInt upper))

def isArray : VarType → Bool
  | .array _ => true
  | _ => false

/-- The number of array levels: 0 for a scalar, 1 for a vector, and so on. -/
def dimensions : VarType → Nat
  | .array base => base.dimensions + 1
  | _ => 0

/-! ## Writing -/

def boundField (name : String) (bound : Option Expr) : List (String × Json) :=
  match bound with
  | some e => [(name, e.toJson)]
  | none => []

def toJson : VarType → Json
  | .basic t => .str t.spelling
  | .bounded base lower upper =>
    .obj (("kind", .str "bounded") :: ("base", .str base.spelling) ::
      (boundField "lower-bound" lower ++ boundField "upper-bound" upper))
  | .array base => .obj [("kind", .str "array"), ("base", base.toJson)]

/-! ## Reading -/

def basic? (n : Node) : Option BasicType := (BasicType.codec.decode .value n).outcome.toOption

/-- The node names the given kind of type. -/
def isKind (kind : String) : Node → Bool
  | .str s => s = kind
  | .obj [(some k, .null)] => k = kind
  | _ => false

/-- A bound that may be missing or `null`. -/
def bound? : Option Node → Option (Option Expr)
  | none => some none
  | some .null => some none
  | some n => do
    let j ← n.toJson?
    let e ← (Expr.ofJson j).toOption
    return some e

/-- A bounded type from its four fields. -/
def bounded? (kind base : Node) (lower upper : Option Node) : Option VarType := do
  guard (isKind "bounded" kind)
  return .bounded (← basic? base) (← bound? lower) (← bound? upper)

/-- Only the four fields of a bounded type, each at most once. -/
def hasBoundedKeys (fields : List (Option String × Node)) : Bool :=
  let keys := fields.map (·.1)
  keys.all ([some "kind", some "base", some "lower-bound", some "upper-bound"].contains ·) &&
    decide keys.Nodup

def boundedOfFields? (fields : List (Option String × Node)) : Option VarType := do
  guard (hasBoundedKeys fields)
  bounded? (← fields.lookup (some "kind")) (← fields.lookup (some "base"))
    (fields.lookup (some "lower-bound")) (fields.lookup (some "upper-bound"))

def boundedOfItems? : List Node → Option VarType
  | [kind, base] => bounded? kind base none none
  | [kind, base, lower] => bounded? kind base (some lower) none
  | [kind, base, lower, upper] => bounded? kind base (some lower) (some upper)
  | _ => none

/-- A type, from an object or from an array of the field values. Bounded and array types have no
other fields than their own. -/
def ofNode? : Node → Option VarType
  | .arr [kind, base] =>
    if isKind "array" kind then (ofNode? base).map .array else bounded? kind base none none
  | .arr items => boundedOfItems? items
  | .obj [(some k, a), (some l, b)] =>
    if k = "kind" && l = "base" && isKind "array" a then (ofNode? b).map .array
    else if k = "base" && l = "kind" && isKind "array" b then (ofNode? a).map .array
    else boundedOfFields? [(some k, a), (some l, b)]
  | .obj fields => ((basic? (.obj fields)).map .basic).or (boundedOfFields? fields)
  | n => (basic? n).map .basic

/-- A type is read as a whole before its form is looked at. -/
def codec : Codec VarType where
  encode := toJson
  decode _ n :=
    if n.readable then
      match ofNode? n with
      | some t => .ok t
      | none => Codec.reject .notAType
    else .fail .unreadable

end VarType

end AutomataNet
