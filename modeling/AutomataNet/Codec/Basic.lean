import AutomataNet.Codec.Error
import AutomataNet.Report
/-!
Codecs: how the parts of a model are written as JSON and read back.

Reading goes through a tree in the order of the document and stops at the first problem.
-/

namespace AutomataNet

/-- Where a document comes from. A few malformed values are reported differently when the document
is read straight from text. -/
inductive Source where
  | text
  | value
deriving DecidableEq, Repr, Inhabited

/-- A way to write values of a type as JSON and to read them. -/
structure Codec (α : Type) where
  encode : α → Json
  decode : Source → Node → Report DocumentError α

namespace Codec

variable {α β : Type}

def reject (e : DataError) : Report DocumentError α := .fail (.data e)

/-- The failure of finding something else than expected. -/
def mismatch (n : Node) (expected : String) : Report DocumentError α :=
  match Found.ofNode? n with
  | some found => reject (.invalidType found expected)
  | none => .fail .unreadable

/-! ## Simple values -/

def string : Codec String where
  encode := .str
  decode
    | _, .str s => .ok s
    | _, n => mismatch n "a string"

def bool : Codec Bool where
  encode := .bool
  decode
    | _, .bool b => .ok b
    | _, n => mismatch n "a boolean"

/-- A small version number. -/
def byte : Codec UInt8 where
  encode n := .ofNat n.toNat
  decode
    | _, .num (.int n) =>
      if 0 ≤ n && n < 256 then .ok (UInt8.ofNat n.toNat) else reject (.invalidValue (.int n) "u8")
    | _, n => mismatch n "u8"

def expr : Codec Expr where
  encode := Expr.toJson
  decode _ n :=
    match n.toJson? with
    | none => .fail .unreadable
    | some j =>
      match Expr.ofJson j with
      | .ok e => .ok e
      | .error e => reject (.expression e)

/-! ## Several values -/

def list (c : Codec α) : Codec (List α) where
  encode xs := .arr (xs.map c.encode)
  decode
    | s, .arr items => Report.mapList (c.decode s) items
    | _, n => mismatch n "a sequence"

/-- A value or `null`. -/
def option (c : Codec α) : Codec (Option α) where
  encode x := x.elim .null c.encode
  decode
    | _, .null => .ok none
    | s, n => some <$> c.decode s n

/-! ## Choices -/

/-- One of finitely many values, each with a spelling. -/
structure Choice (α : Type) where
  all : List α
  spelling : α → String

namespace Choice

def ofSpelling? (c : Choice α) (s : String) : Option α := c.all.find? (c.spelling · = s)

def pick (c : Choice α) (s : String) : Report DocumentError α :=
  match c.ofSpelling? s with
  | some a => .ok a
  | none => reject (.unknownVariant s (c.all.map c.spelling))

/-- The place after a spelling used as a field name has to be `null`. -/
def nothing : Node → Report DocumentError Unit
  | .null => .ok ()
  | n => mismatch n "unit"

end Choice

/-- A choice is written as a string. It is also read from an object whose only field is the
spelling, with the value `null`. -/
def choice (c : Choice α) : Codec α where
  encode a := .str (c.spelling a)
  decode
    | _, .str s => c.pick s
    | .value, .obj [(some k, n)] => do
      let a ← c.pick k
      Choice.nothing n
      return a
    | .value, .obj _ => reject (.invalidValue .map "map with a single key")
    | .value, n => mismatch n "string or map"
    | .text, .obj ((some k, n) :: rest) => do
      let a ← c.pick k
      Choice.nothing n
      if rest.isEmpty then return a else Report.fail .unreadable
    | .text, _ => .fail .unreadable

/-! ## Documents -/

/-- Decodes a JSON value. -/
def ofValue (c : Codec α) (j : Json) : Report DocumentError α := c.decode .value (Node.ofJson j)

/-- Decodes a text. -/
def ofText (c : Codec α) (text : String) : Report DocumentError α := do
  let d := Node.ofText text
  let a ← c.decode .text d.root
  if d.trailing then Report.fail .unreadable else return a

def text (c : Codec α) (a : α) : String := (c.encode a).compact

def pretty (c : Codec α) (a : α) : String := (c.encode a).pretty

end Codec

end AutomataNet
