import AutomataNet.Model.Basic
/-!
Options of the command.

Arguments are taken one at a time. A value that stands in an argument of its own is looked at only
when the next option or input begins, so an unknown argument right after it is reported first.
-/

namespace AutomataNet.CommandLine

/-- What the command is to do. -/
structure Options where
  /-- Paths of the statecharts. -/
  inputs : List String
  /-- Where to write the model; standard output if missing. -/
  output : Option String := none
  maxArraySize : Nat := 100
  /-- Path of a list of properties. -/
  properties : Option String := none
  modelName : String := "model"
  modelType : ModelType := .mdp
deriving DecidableEq, Repr, Inhabited

/-- Options that take a value. -/
inductive Flag where
  | output
  | maxArraySize
  | properties
  | modelName
  | modelType
deriving DecidableEq, Repr, Inhabited

namespace Flag

def all : List Flag := [.output, .maxArraySize, .properties, .modelName, .modelType]

def long : Flag → String
  | .output => "output"
  | .maxArraySize => "max-array-size"
  | .properties => "properties"
  | .modelName => "model-name"
  | .modelType => "model-type"

def ofLong? (name : String) : Option Flag := all.find? (·.long = name)

def ofShort? (c : Char) : Option Flag :=
  if c = 'o' then some .output else if c = 'p' then some .properties else none

end Flag

/-- Why the arguments are not carried out; asking for help or the version ends the matter too. -/
inductive UsageError where
  | missingInputs
  | unknownArgument (argument : String)
  /-- No value, or an empty path. -/
  | missingValue
  | invalidValue (flag : Flag) (value : String)
  | repeated (flag : Flag)
  /-- A value given to an option that takes none. -/
  | unwantedValue (argument : String)
  | help
  | version
deriving DecidableEq, Repr, Inhabited

/-! ## Values -/

/-- A number of decimal digits, possibly after a plus sign, below `2 ^ 64`. -/
def size? (s : String) : Option Nat :=
  let digits := match s.toList with
    | '+' :: cs => cs
    | cs => cs
  if digits.isEmpty || !digits.all Char.isDigit then none
  else
    let n := digits.foldl (fun n c => 10 * n + (c.toNat - 48)) 0
    if n < UInt64.size then some n else none

/-- The options given so far. -/
structure Given where
  inputs : List String := []
  output : Option String := none
  maxArraySize : Option Nat := none
  properties : Option String := none
  modelName : Option String := none
  modelType : Option ModelType := none

namespace Given

def has (g : Given) : Flag → Bool
  | .output => g.output.isSome
  | .maxArraySize => g.maxArraySize.isSome
  | .properties => g.properties.isSome
  | .modelName => g.modelName.isSome
  | .modelType => g.modelType.isSome

/-- Takes the value of an option, which may be given once. -/
def set (g : Given) (flag : Flag) (value : String) : Except UsageError Given :=
  if g.has flag then .error (.repeated flag)
  else
    match flag with
    | .output => if value.isEmpty then .error .missingValue else .ok { g with output := some value }
    | .properties =>
      if value.isEmpty then .error .missingValue else .ok { g with properties := some value }
    | .modelName => .ok { g with modelName := some value }
    | .maxArraySize =>
      match size? value with
      | some n => .ok { g with maxArraySize := some n }
      | none => .error (.invalidValue flag value)
    | .modelType =>
      match ModelType.ofName value with
      | .ok t => .ok { g with modelType := some t }
      | .error _ => .error (.invalidValue flag value)

def addInputs (g : Given) (paths : List String) : Except UsageError Given :=
  if paths.any (·.isEmpty) then .error .missingValue
  else .ok { g with inputs := g.inputs ++ paths }

/-- The options, with defaults for those not given. -/
def finish (g : Given) : Except UsageError Options :=
  if g.inputs.isEmpty then .error .missingInputs
  else
    .ok
      { inputs := g.inputs
        output := g.output
        maxArraySize := g.maxArraySize.getD 100
        properties := g.properties
        modelName := g.modelName.getD "model"
        modelType := g.modelType.getD .mdp }

end Given

/-! ## Arguments -/

/-- What has been read but not yet looked at. -/
inductive Pending where
  | nothing
  | inputs (paths : List String)
  /-- An option in want of its value, or with it. -/
  | value (flag : Flag) (value : Option String)

/-- How far the arguments are read. -/
structure Progress where
  given : Given := {}
  pending : Pending := .nothing
  /-- After `--` everything is an input. -/
  onlyInputs : Bool := false

namespace Progress

/-- Looks at what is pending. -/
def settle (p : Progress) : Except UsageError Progress :=
  match p.pending with
  | .nothing => .ok p
  | .inputs paths => do
    let given ← p.given.addInputs paths
    .ok { p with given, pending := .nothing }
  | .value _ none => .error .missingValue
  | .value flag (some value) => do
    let given ← p.given.set flag value
    .ok { p with given, pending := .nothing }

def addInput (p : Progress) (path : String) : Except UsageError Progress :=
  match p.pending with
  | .inputs paths => .ok { p with pending := .inputs (paths ++ [path]) }
  | _ => do
    let p ← p.settle
    .ok { p with pending := .inputs [path] }

/-- An option begins, with its value if that is attached. -/
def begin (p : Progress) (flag : Flag) (attached : Option String) : Except UsageError Progress := do
  let p ← p.settle
  match attached with
  | none => .ok { p with pending := .value flag none }
  | some value => do
    let given ← p.given.set flag value
    .ok { p with given }

/-- An option that asks for information. -/
def ask (p : Progress) (what : UsageError) : Except UsageError Progress := do
  let _ ← p.settle
  .error what

/-- An argument `--name` or `--name=value`. -/
def long (p : Progress) (cs : List Char) : Except UsageError Progress :=
  let name := String.ofList (cs.takeWhile (· ≠ '='))
  let attached := match cs.dropWhile (· ≠ '=') with
    | _ :: value => some (String.ofList value)
    | [] => none
  match Flag.ofLong? name, name, attached with
  | some flag, _, _ => p.begin flag attached
  | none, "help", none => p.ask .help
  | none, "version", none => p.ask .version
  | none, "help", some _ => .error (.unwantedValue name)
  | none, "version", some _ => .error (.unwantedValue name)
  | none, _, _ => .error (.unknownArgument ("--" ++ String.ofList cs))

/-- An argument `-x`, `-xvalue` or `-x=value`. -/
def short (p : Progress) (c : Char) (rest : List Char) : Except UsageError Progress :=
  match Flag.ofShort? c with
  | some flag =>
    match rest with
    | [] => p.begin flag none
    | '=' :: value => p.begin flag (some (String.ofList value))
    | value => p.begin flag (some (String.ofList value))
  | none =>
    if c = 'h' then p.ask .help
    else if c = 'V' then p.ask .version
    else .error (.unknownArgument (String.ofList ['-', c]))

/-- An argument that is no option. -/
def plain (p : Progress) (argument : String) : Except UsageError Progress :=
  match p.pending with
  | .value flag none => .ok { p with pending := .value flag (some argument) }
  | _ => p.addInput argument

def step (p : Progress) (argument : String) : Except UsageError Progress :=
  if p.onlyInputs then p.addInput argument
  else
    match argument.toList with
    | ['-', '-'] => .ok { p with onlyInputs := true }
    | '-' :: '-' :: cs => p.long cs
    | '-' :: c :: rest => p.short c rest
    | _ => p.plain argument

end Progress

/-- The options that the arguments of the command stand for. -/
def parse (arguments : List String) : Except UsageError Options := do
  let p ← arguments.foldlM Progress.step {}
  let p ← p.settle
  p.given.finish

end AutomataNet.CommandLine
