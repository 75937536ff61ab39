/-!
JSON values. Objects keep their fields in order, and numbers keep apart integers and doubles.
-/

namespace AutomataNet

/-- A JSON number: written without fraction and exponent and small enough, it is an integer. -/
inductive Number where
  | int (n : Int)
  | real (x : Float)
deriving Inhabited

/-- A JSON value. -/
inductive Json where
  | null
  | bool (b : Bool)
  | num (n : Number)
  | str (s : String)
  | arr (items : List Json)
  | obj (fields : List (String × Json))
deriving Inhabited

namespace Json

def int (n : Int) : Json := .num (.int n)

def ofNat (n : Nat) : Json := .num (.int n)

/-- A string, or `null`. -/
def ofOption (s : Option String) : Json := s.elim .null .str

end Json

end AutomataNet
