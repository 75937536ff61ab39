import AutomataNet.Model.Basic
/-!
Expansion of random assignments into probabilistic destinations.

A destination that assigns samples is replaced by one destination for each combination of outcomes,
and its weight is split evenly among them.
-/

namespace AutomataNet

/-- Why sampling cannot be expanded. -/
inductive ExpansionError where
  | unsupportedDistribution (name : String)
  /-- Not two literal bounds in order. -/
  | badArguments (name : String)
  /-- A sample that is not the whole value of an assignment. -/
  | nestedSampling
  | tooManyOutcomes
  | inAutomaton (automaton : String) (cause : ExpansionError)
deriving DecidableEq, Repr, Inhabited

def ExpansionError.message : ExpansionError → String
  | .unsupportedDistribution n => s!"unsupported distribution '{n}'"
  | .badArguments n =>
    s!"distribution '{n}' needs two literal bounds, the first not greater than the second"
  | .nestedSampling => "sampling from a distribution is only supported as the value of an assignment"
  | .tooManyOutcomes => "destination has too many combined outcomes"
  | .inAutomaton a e => s!"in automaton '{a}': " ++ e.message

/-! ## Sampling -/

namespace Expr

mutual

/-- The expression samples from a distribution somewhere. -/
def samples : Expr → Bool
  | .literal _ _ => false
  | .identifier _ _ => false
  | .operator _ operands _ => operandsSample operands
  | .arrayValue elements _ => listSamples elements
  | .distribution _ _ _ => true

def listSamples : List Expr → Bool
  | [] => false
  | e :: es => samples e || listSamples es

def operandsSample : List (String × Expr) → Bool
  | [] => false
  | (_, e) :: es => samples e || operandsSample es

end

end Expr

/-- All integers from `lo` to `hi`, or `cap` of them evenly spaced with both ends included, each
rounded to the nearest. -/
def spacedIntegers (lo hi : Int) (cap : Nat) : List Int :=
  let span := hi - lo
  let cap := max cap 1
  if span < cap then (List.range (span.toNat + 1)).map fun (i : Nat) => lo + i
  else if cap = 1 then [lo]
  else
    let steps : Int := cap - 1
    (List.range cap).map fun (i : Nat) => lo + (2 * i * span + steps) / (2 * steps)

/-- `cap` evenly spaced reals from `lo` to `hi`, both included. -/
def spacedReals (lo hi : Float) (cap : Nat) : List Float :=
  if cap ≤ 1 || lo == hi then [lo]
  else
    let steps := Float.ofNat (cap - 1)
    (List.range cap).map fun i =>
      if i = cap - 1 then hi else lo + (hi - lo) * Float.ofNat i / steps

/-- A literal bound as a real. -/
def Expr.real? : Expr → Option Float
  | .literal (.int n) _ => some n.toFloat
  | .literal (.real x) _ => some x
  | _ => none

/-- Outcomes of a uniform choice among integers. -/
def integerOutcomes (name : String) (cap : Nat) : Expr → Expr → Except ExpansionError (List Expr)
  | .literal (.int lo) _, .literal (.int hi) _ =>
    if hi < lo then .error (.badArguments name)
    else .ok ((spacedIntegers lo.toInt hi.toInt cap).map fun n => .ofInt (Int64.ofInt n))
  | _, _ => .error (.badArguments name)

/-- Outcomes of a uniform choice among reals. -/
def realOutcomes (name : String) (cap : Nat) (lo hi : Expr) : Except ExpansionError (List Expr) :=
  match lo.real?, hi.real? with
  | some lo, some hi =>
    if lo > hi then .error (.badArguments name)
    else .ok ((spacedReals lo hi cap).map fun x => .lit (.real x))
  | _, _ => .error (.badArguments name)

/-- The outcomes a distribution is expanded into, at most `cap` of them. -/
def outcomes (name : String) (args : List Expr) (cap : Nat) : Except ExpansionError (List Expr) :=
  match args with
  | [lo, hi] =>
    if name = "DiscreteUniform" then integerOutcomes name cap lo hi
    else if name = "Uniform" then realOutcomes name cap lo hi
    else .error (.unsupportedDistribution name)
  | _ => .error (.badArguments name)

/-! ## Destinations -/

/-- The outcomes of the assigned value; `none` if it is not a sample. -/
def Assignment.outcomes? (cap : Nat) (a : Assignment) :
    Except ExpansionError (Option (List Expr)) :=
  if a.target.samples then .error .nestedSampling
  else
    match a.value with
    | .distribution name args _ => some <$> outcomes name args cap
    | v => if v.samples then .error .nestedSampling else .ok none

/-- Pairs each assignment with its outcomes. -/
def sampleAll (cap : Nat) :
    List Assignment → Except ExpansionError (List (Assignment × Option (List Expr)))
  | [] => .ok []
  | a :: as => do
    let values ← a.outcomes? cap
    let rest ← sampleAll cap as
    .ok ((a, values) :: rest)

/-- All ways to choose an outcome for each sample, the first one varying slowest. -/
def combinations : List (Assignment × Option (List Expr)) → List (List Assignment)
  | [] => [[]]
  | (a, none) :: rest => (combinations rest).map (a :: ·)
  | (a, some values) :: rest =>
    let tails := combinations rest
    values.flatMap fun value => tails.map ({ a with value } :: ·)

/-- The number of combinations. -/
def combinationCount (sampled : List (Assignment × Option (List Expr))) : Nat :=
  (sampled.filterMap (·.2)).foldl (fun n values => n * values.length) 1

/-- An even share of a weight, which is 1 if missing. -/
def Probability.share (p : Option Probability) (count : Nat) : Probability :=
  let weight := match p with
    | some p => p.exp
    | none => .ofInt 1
  { exp := .binary .divide weight (.ofInt (Int64.ofNat count)), comment := p.bind (·.comment) }

/-- The destinations that replace one; without a sample it stays as it is. -/
def Destination.expand (cap : Nat) (d : Destination) : Except ExpansionError (List Destination) :=
  if d.probability.any (·.exp.samples) then .error .nestedSampling
  else do
    let sampled ← sampleAll cap d.assignments
    if sampled.all (·.2.isNone) then .ok [d]
    else
      let count := combinationCount sampled
      if count ≤ Int64.maxValue.toInt then
        let probability := some (Probability.share d.probability count)
        .ok ((combinations sampled).map fun assignments => { d with probability, assignments })
      else .error .tooManyOutcomes

def expandDestinations (cap : Nat) :
    List Destination → Except ExpansionError (List (List Destination))
  | [] => .ok []
  | d :: ds => do
    let e ← d.expand cap
    let es ← expandDestinations cap ds
    .ok (e :: es)

/-! ## Models -/

/-- Expands an edge, and counts the destinations that became several. On failure the edge is left
without destinations. -/
def Edge.expand (cap : Nat) (e : Edge) : Attempt Edge ExpansionError Nat :=
  if e.guardExp?.any (·.samples) then .fail e .nestedSampling
  else
    match expandDestinations cap e.destinations with
    | .error err => .fail { e with destinations := [] } err
    | .ok groups =>
      .ok { e with destinations := groups.flatten } (groups.countP (1 < ·.length))

/-- The sum of some counts. -/
def total (counts : List Nat) : Nat := counts.foldl (· + ·) 0

def Automaton.expand (cap : Nat) (a : Automaton) : Attempt Automaton ExpansionError Nat :=
  ((((Attempt.onEach (Edge.expand cap) a.edges).mapState fun edges => { a with edges }).mapResult
    total).noting fun n => if 0 < n then [.expandedIn a.name n] else []).mapError
      (.inAutomaton a.name)

namespace Model

/-- How many outcomes a distribution is expanded into by default. -/
def expansionCap : Nat := 100

/-- Expands all samples of a model; each distribution has at most `cap` outcomes. -/
def expand (cap : Nat) (m : Model) : Attempt Model ExpansionError Unit :=
  ((((Attempt.onEach (Automaton.expand cap) m.automata).mapState fun automata =>
    { m with automata }).mapResult total).noting fun n => [.expanded n]).mapResult fun _ => ()

end Model

end AutomataNet
