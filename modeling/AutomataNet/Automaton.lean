import AutomataNet.Variable.Registry
/-!
Automata: locations joined by edges, with local variables.
-/

namespace AutomataNet

/-! ## Parts of an edge -/

/-- A condition. -/
structure Guard where
  exp : Expr
  comment : Option String := none
deriving BEq, Inhabited

def Guard.record : Record Guard where
  name := "Guard"
  fields := .cons (.required "exp" .expr) <| .cons .comment .nil
  toRow g := (g.exp, g.comment, ())
  ofRow := fun (exp, comment, ()) => { exp, comment }

/-- The probability, or weight, of a destination. -/
structure Probability where
  exp : Expr
  comment : Option String := none
deriving BEq, Inhabited

def Probability.record : Record Probability where
  name := "Probability"
  fields := .cons (.required "exp" .expr) <| .cons .comment .nil
  toRow p := (p.exp, p.comment, ())
  ofRow := fun (exp, comment, ()) => { exp, comment }

/-- An assignment to a variable or to a cell of an array. -/
structure Assignment where
  target : Expr
  value : Expr
  comment : Option String := none
deriving BEq, Inhabited

namespace Assignment

/-- The assignment leaves its target unchanged. -/
def isIdentity (a : Assignment) : Bool := a.target == a.value

def record : Record Assignment where
  name := "Assignment"
  fields := .cons (.required "ref" .expr) <| .cons (.required "value" .expr) <| .cons .comment .nil
  toRow a := (a.target, a.value, a.comment, ())
  ofRow := fun (target, value, comment, ()) => { target, value, comment }

end Assignment

/-- Where an edge may lead. -/
structure Destination where
  location : String
  /-- If missing, it is 1. -/
  probability : Option Probability := none
  assignments : List Assignment := []
  comment : Option String := none
deriving BEq, Inhabited

def Destination.record : Record Destination where
  name := "Destination"
  fields :=
    .cons (.required "location" .string) <|
    .cons (.optional "probability" Probability.record.codec) <|
    .cons (.elidedList "assignments" Assignment.record.codec) <|
    .cons .comment .nil
  toRow d := (d.location, d.probability, d.assignments, d.comment, ())
  ofRow := fun (location, probability, assignments, comment, ()) =>
    { location, probability, assignments, comment }

/-- An edge. Without an action it is silent, without a guard it is always enabled. -/
structure Edge where
  location : String
  action : Option String := none
  guard : Option Guard := none
  destinations : List Destination
  comment : Option String := none
deriving BEq, Inhabited

namespace Edge

def guardExp? (e : Edge) : Option Expr := e.guard.map (·.exp)

/-- The edge has no guard, or the literal `true` as its guard. -/
def isUnguarded (e : Edge) : Bool :=
  match e.guardExp? with
  | some g => g.isTrue
  | none => true

def record : Record Edge where
  name := "Edge"
  fields :=
    .cons (.required "location" .string) <|
    .cons (.optional "action" .string) <|
    .cons (.optional "guard" Guard.record.codec) <|
    .cons (.required "destinations" Destination.record.codec.list) <|
    .cons .comment .nil
  toRow e := (e.location, e.action, e.guard, e.destinations, e.comment, ())
  ofRow := fun (location, action, guard, destinations, comment, ()) =>
    { location, action, guard, destinations, comment }

end Edge

/-! ## Automata -/

/-- A location of an automaton. -/
structure Location where
  name : String
  comment : Option String := none
deriving DecidableEq, Repr, Inhabited

def Location.record : Record Location where
  name := "Location"
  fields := .cons (.required "name" .string) <| .cons .comment .nil
  toRow l := (l.name, l.comment, ())
  ofRow := fun (name, comment, ()) => { name, comment }

/-- An automaton. -/
structure Automaton where
  name : String
  locals : Registry := {}
  locations : List Location
  initialLocations : List String
  edges : List Edge := []
  comment : Option String := none
deriving BEq, Inhabited

namespace Automaton

/-- An automaton with a single location, where it starts. -/
def single (name location : String) : Automaton where
  name := name
  locations := [{ name := location }]
  initialLocations := [location]

def edgesWithAction (a : Automaton) (action : String) : List Edge :=
  a.edges.filter (·.action = some action)

def hasAction (a : Automaton) (action : String) : Bool := a.edges.any (·.action = some action)

def hasLocation (a : Automaton) (location : String) : Bool :=
  a.locations.any (·.name = location)

/-- The labels of the edges, in order. -/
def actions (a : Automaton) : List String := a.edges.filterMap (·.action)

def record : Record Automaton where
  name := "Automaton"
  fields :=
    .cons (.required "name" .string) <|
    .cons (.defaulted "variables" Registry.codec {}) <|
    .cons (.required "locations" Location.record.codec.list) <|
    .cons (.required "initial-locations" Codec.string.list) <|
    .cons (.defaulted "edges" Edge.record.codec.list []) <|
    .cons .comment .nil
  toRow a := (a.name, a.locals, a.locations, a.initialLocations, a.edges, a.comment, ())
  ofRow := fun (name, locals, locations, initialLocations, edges, comment, ()) =>
    { name, locals, locations, initialLocations, edges, comment }

def codec : Codec Automaton := record.codec

end Automaton

end AutomataNet
