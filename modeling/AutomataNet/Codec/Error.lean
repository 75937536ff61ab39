import AutomataNet.Expr.Codec
import AutomataNet.Json.Node
import AutomataNet.Text.Quoted
import AutomataNet.Variable.Error
/-!
Why a document is not what it should be.
-/

namespace AutomataNet

/-- What stands in a document, for messages. -/
inductive Found where
  | null
  | bool (b : Bool)
  | int (n : Int)
  | real (x : Float)
  | str (s : String)
  | seq
  | map
deriving Inhabited

namespace Found

def describe : Found → String
  | .null => "null"
  | .bool b => if b then "boolean `true`" else "boolean `false`"
  | .int n => s!"integer `{n}`"
  | .real x => "floating point `" ++ Number.text (.real x) ++ "`"
  | .str s => "string " ++ Text.quoted s
  | .seq => "sequence"
  | .map => "map"

/-- What stands at a node; `none` if nothing can be read there. -/
def ofNode? : Node → Option Found
  | .null => some .null
  | .bool b => some (.bool b)
  | .num (.int n) => some (.int n)
  | .num (.real x) => some (.real x)
  | .str s => some (.str s)
  | .arr _ => some .seq
  | .obj _ => some .map
  | .unreadable _ => none

end Found

/-- Why a JSON value has the wrong shape. -/
inductive DataError where
  | missingField (name : String)
  | duplicateField (name : String)
  | invalidType (found : Found) (expected : String)
  | invalidValue (found : Found) (expected : String)
  | invalidLength (length : Nat) (expected : String)
  | unknownVariant (name : String) (known : List String)
  /-- No form of variable type fits. -/
  | notAType
  | expression (cause : FormatError)
  | registry (cause : RegistryError)
deriving Inhabited

def DataError.message : DataError → String
  | .missingField f => s!"missing field `{f}`"
  | .duplicateField f => s!"duplicate field `{f}`"
  | .invalidType found expected => "invalid type: " ++ found.describe ++ ", expected " ++ expected
  | .invalidValue found expected => "invalid value: " ++ found.describe ++ ", expected " ++ expected
  | .invalidLength n expected => s!"invalid length {n}, expected {expected}"
  | .unknownVariant v known =>
    s!"unknown variant `{v}`, expected one of "
      ++ String.intercalate ", " (known.map fun k => s!"`{k}`")
  | .notAType => "data did not match any variant of untagged enum JaniType"
  | .expression e => e.message
  | .registry e => e.message

/-- Why a document cannot be taken. -/
inductive DocumentError where
  /-- The text is not JSON, or holds something that no JSON value stands for. -/
  | unreadable
  | data (cause : DataError)
deriving Inhabited

end AutomataNet
