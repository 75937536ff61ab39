import AutomataNet.CommandLine.Run
/-!
The command: assembles statecharts into a model.
-/

namespace AutomataNet.CommandLine

def usage : String :=
  "Assembles statecharts into a model\n\n" ++
  "Usage: automata-net [OPTIONS] <INPUTS>...\n\n" ++
  "Options:\n" ++
  "  -o, --output <OUTPUT>                  path of the model to write\n" ++
  "      --max-array-size <MAX_ARRAY_SIZE>  maximum number of elements of arrays\n" ++
  "  -p, --properties <PROPERTIES>          path of a list of properties\n" ++
  "      --model-name <MODEL_NAME>          name of the model\n" ++
  "      --model-type <MODEL_TYPE>          type of the model\n" ++
  "  -h, --help                             show this help\n" ++
  "  -V, --version                          show the version"

def UsageError.message : UsageError → String
  | .missingInputs => "no inputs given"
  | .unknownArgument a => s!"unexpected argument '{a}'"
  | .missingValue => "a value is required"
  | .invalidValue flag value => s!"invalid value '{value}' for --" ++ flag.long
  | .repeated flag => "given more than once: --" ++ flag.long
  | .unwantedValue a => s!"no value expected for --{a}"
  | .help => usage
  | .version => "automata-net 0.1.0"

def fileError : IO.Error → FileError
  | .noFileOrDirectory .. => .notFound
  | e => .other (toString e)

/-- Reads a file; what can be opened but not read is `none`. -/
def readFile (path : String) : IO (Except FileError (Option String)) := do
  match ← (IO.FS.Handle.mk path .read).toBaseIO with
  | .error e => return .error (fileError e)
  | .ok _ =>
    match ← (IO.FS.readFile path).toBaseIO with
    | .error _ => return .ok none
    | .ok text => return .ok (some text)

/-- Reads all files the options name. -/
def readFiles (o : Options) : IO Files := do
  let texts ← (o.inputs ++ o.properties.toList).mapM fun path => return (path, ← readFile path)
  return fun path => (texts.lookup path).getD (.error .notFound)

def write (out : Output) : IO (Except CommandError Unit) := do
  match out.path with
  | none =>
    IO.print out.text
    return .ok ()
  | some path =>
    match ← (IO.FS.writeFile path out.text).toBaseIO with
    | .ok () => return .ok ()
    | .error e => return .error (.cannotCreate path (fileError e))

/-- Carries out the command; only errors are told. -/
def execute (o : Options) : IO UInt32 := do
  let r := run (← readFiles o) o
  for n in r.notices do
    if n.shownAt .error then IO.eprintln s!"[{n.severity.label}] {n.message}"
  match r.outcome with
  | .error e =>
    IO.eprintln s!"ERROR: {e.message}"
    return 1
  | .ok out =>
    match ← write out with
    | .ok () => return 0
    | .error e =>
      IO.eprintln s!"ERROR: {e.message}"
      return 1

/-- Carries out the command with the given arguments, and gives its exit code. -/
def command (arguments : List String) : IO UInt32 := do
  match parse arguments with
  | .ok o => execute o
  | .error .help =>
    IO.println (UsageError.message .help)
    return 0
  | .error .version =>
    IO.println (UsageError.message .version)
    return 0
  | .error e =>
    IO.eprintln s!"error: {e.message}"
    return 2

end AutomataNet.CommandLine

def main (arguments : List String) : IO UInt32 := AutomataNet.CommandLine.command arguments
