import AutomataNet.Assembly.Basic
import AutomataNet.CommandLine.Options
/-!
What the command does: it reads statecharts and properties, builds the model and writes it.

The command itself is a function of the files it reads. Writing the result is left to its caller.
-/

namespace AutomataNet.CommandLine

/-- Why a file cannot be opened or created. -/
inductive FileError where
  | notFound
  | isADirectory
  | notADirectory
  | invalidPath
  | nameTooLong
  | other (message : String)
deriving DecidableEq, Repr, Inhabited

def FileError.message : FileError → String
  | .notFound => "no such file or directory"
  | .isADirectory => "is a directory"
  | .notADirectory => "not a directory"
  | .invalidPath => "invalid path"
  | .nameTooLong => "file name too long"
  | .other m => m

/-- The files: opening may fail, and what is opened may turn out not to hold text (`none`). -/
abbrev Files := String → Except FileError (Option String)

/-- Why an opened file cannot be taken. -/
inductive LoadError where
  | notRead
  | document (cause : DocumentError)
deriving Inhabited

def LoadError.message : LoadError → String
  | .notRead => "the file cannot be read"
  | .document .unreadable => "the file does not hold JSON"
  | .document (.data e) => e.message

/-- Why the command fails. -/
inductive CommandError where
  | cannotOpen (path : String) (cause : FileError)
  | badChart (path : String) (cause : LoadError)
  | badProperties (path : String) (cause : LoadError)
  | cannotBuild (model : String) (cause : AssemblyError)
  | cannotCreate (path : String) (cause : FileError)
deriving Inhabited

namespace CommandError

/-- What the command was about to do. -/
def context : CommandError → String
  | .cannotOpen p _ => s!"failed to create reader from file '{p}'"
  | .badChart p _ => s!"failed to parse statechart in '{p}'"
  | .badProperties p _ => s!"failed to parse properties in '{p}'"
  | .cannotBuild m _ => s!"failed to build model '{m}'"
  | .cannotCreate p _ => s!"failed to create file '{p}'"

def message (e : CommandError) : String :=
  e.context ++ ": " ++
    match e with
    | .cannotOpen _ cause => cause.message
    | .badChart _ cause => cause.message
    | .badProperties _ cause => cause.message
    | .cannotBuild _ cause => cause.message
    | .cannotCreate _ cause => cause.message

end CommandError

/-- Opens a file and takes its text. -/
def load {α : Type} (files : Files) (path : String) (told : Notice)
    (bad : LoadError → CommandError) (take : String → Report DocumentError α) :
    Report CommandError α := do
  Report.note told
  match files path with
  | .error e => Report.fail (.cannotOpen path e)
  | .ok none => Report.fail (bad .notRead)
  | .ok (some text) => (take text).mapError fun e => bad (.document e)

def loadChart (files : Files) (path : String) : Report CommandError Chart :=
  load files path (.readingChart path) (.badChart path) (Chart.ofText path)

def loadProperties (files : Files) (path : String) : Report CommandError (List Property) :=
  load files path (.readingProperties path) (.badProperties path)
    Property.record.codec.list.ofText

/-- The model that the options ask for. -/
def build (files : Files) (o : Options) : Report CommandError Model := do
  let charts ← Report.mapList (loadChart files) o.inputs
  let properties ← match o.properties with
    | some path => loadProperties files path
    | none => pure []
  (({ modelName := o.modelName, modelType := o.modelType } : Assembler).convert charts
    o.maxArraySize properties).mapError (.cannotBuild o.modelName)

/-- A text, and the path it goes to; without one it goes to standard output. -/
structure Output where
  path : Option String
  text : String

/-- The result of the command: the model as pretty text. On standard output a line end follows. -/
def run (files : Files) (o : Options) : Report CommandError Output := do
  let m ← build files o
  match o.output with
  | some path => do
    Report.note (.writing path)
    return ⟨some path, Model.codec.pretty m⟩
  | none => return ⟨none, Model.codec.pretty m ++ "\n"⟩

end AutomataNet.CommandLine
