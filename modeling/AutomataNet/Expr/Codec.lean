import AutomataNet.Expr.Basic
import AutomataNet.Json.Printer
/-!
Expressions as JSON values.

Numbers and booleans are literals and a string is an identifier. An object has one of the keys
`constant`, `distribution` and `op`, which say what it is (in this order of precedence); its other
keys, except `comment`, are the roles of its operands.
-/

namespace AutomataNet

/-- Why a JSON value is not an expression. -/
inductive FormatError where
  /-- The value, as text, has the wrong kind. -/
  | notAnExpression (text : String)
  | missingOp
  | unknownOp (spelling : String)
  | unknownConstant (symbol : String)
  /-- The entry under this key has the wrong shape. -/
  | malformed (key : String)
deriving DecidableEq, Repr, Inhabited

namespace FormatError

def message : FormatError → String
  | .notAnExpression t => s!"JSON value `{t}` is not an expression"
  | .missingOp => "expression object has no `op` key"
  | .unknownOp s => s!"unknown operator `{s}`"
  | .unknownConstant s => s!"unknown constant `{s}`"
  | .malformed k => s!"malformed `{k}` entry"

end FormatError

/-! ## Writing -/

/-- The field of a comment, if there is one. -/
def commentField (comment : Option String) : List (String × Json) :=
  match comment with
  | some c => [("comment", .str c)]
  | none => []

def Value.toJson : Value → Json
  | .bool b => .bool b
  | .int n => .num (.int n.toInt)
  | .real x => .num (.real x)
  | .constant c => .obj [("constant", .str c.symbol)]

namespace Expr

mutual

/-- The JSON value of an expression. There is no room for comments on literals and identifiers. -/
def toJson : Expr → Json
  | .literal v _ => v.toJson
  | .identifier name _ => .str name
  | .operator op operands c =>
    .obj (("op", .str op.spelling) :: (operandsToJson operands ++ commentField c))
  | .arrayValue elements c =>
    .obj (("op", .str "av") :: ("elements", .arr (listToJson elements)) :: commentField c)
  | .distribution name args c =>
    .obj (("distribution", .str name) :: ("args", .arr (listToJson args)) :: commentField c)

def listToJson : List Expr → List Json
  | [] => []
  | e :: es => toJson e :: listToJson es

def operandsToJson : List (String × Expr) → List (String × Json)
  | [] => []
  | (role, e) :: es => (role, toJson e) :: operandsToJson es

end

/-! ## Reading -/

/-- What the keys of an object that are not roles say. -/
structure Header where
  comment : Option String := none
  op : Option String := none
  constant : Option String := none
  distribution : Option String := none

/-- The key is not the role of an operand. -/
def isReserved (key : String) : Bool :=
  key == "comment" || key == "op" || key == "constant" || key == "distribution"

def Header.set (h : Header) (key text : String) : Header :=
  if key = "comment" then { h with comment := some text }
  else if key = "op" then { h with op := some text }
  else if key = "constant" then { h with constant := some text }
  else if key = "distribution" then { h with distribution := some text }
  else h

/-- Collects the reserved keys; their values have to be strings. -/
def Header.read (h : Header) : List (String × Json) → Except FormatError Header
  | [] => .ok h
  | (key, j) :: fs =>
    if isReserved key then
      match j with
      | .str text => (h.set key text).read fs
      | _ => .error (.malformed key)
    else h.read fs

/-- A number is an integer literal if it fits 64 bits, signed, and else a real one. -/
def ofNumber : Number → Value
  | .int n =>
    if Int64.minValue.toInt ≤ n && n ≤ Int64.maxValue.toInt then .int (Int64.ofInt n)
    else .real (Float.ofInt n)
  | .real x => .real x

mutual

/-- The expression a JSON value stands for. -/
def ofJson : Json → Except FormatError Expr
  | .bool b => .ok (lit (.bool b))
  | .num n => .ok (lit (ofNumber n))
  | .str name => .ok (var name)
  | .null => .error (.notAnExpression "null")
  | .arr items => .error (.notAnExpression (Json.compact (.arr items)))
  | .obj fields => do
    let h ← Header.read {} fields
    match h.constant, h.distribution, h.op with
    | some symbol, _, _ =>
      match Constant.ofSymbol? symbol with
      | some c => .ok (.literal (.constant c) h.comment)
      | none => .error (.unknownConstant symbol)
    | none, some name, _ => do
      let args ← listOfField "args" fields
      .ok (.distribution name args h.comment)
    | none, none, some op =>
      if op = "av" then do
        let elements ← listOfField "elements" fields
        .ok (.arrayValue elements h.comment)
      else
        match Op.ofSpelling? op with
        | none => .error (.unknownOp op)
        | some op => do
          let operands ← operandsOfFields fields
          .ok (.operator op operands h.comment)
    | none, none, none => .error .missingOp

def listOfJson : List Json → Except FormatError (List Expr)
  | [] => .ok []
  | j :: js => do
    let e ← ofJson j
    let es ← listOfJson js
    .ok (e :: es)

/-- The list under the given key. -/
def listOfField (key : String) : List (String × Json) → Except FormatError (List Expr)
  | [] => .error (.malformed key)
  | (k, .arr items) :: fs => if k = key then listOfJson items else listOfField key fs
  | (k, _) :: fs => if k = key then .error (.malformed key) else listOfField key fs

/-- The operands, in order. -/
def operandsOfFields : List (String × Json) → Except FormatError (List (String × Expr))
  | [] => .ok []
  | (key, j) :: fs =>
    if isReserved key then operandsOfFields fs
    else do
      let e ← ofJson j
      let es ← operandsOfFields fs
      .ok ((key, e) :: es)

end

/-- The expression as compact text. -/
def text (e : Expr) : String := e.toJson.compact

end Expr

end AutomataNet
