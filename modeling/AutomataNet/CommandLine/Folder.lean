import AutomataNet.CommandLine.Run
/-!
A folder held in memory, to carry out the command without a disk.
-/

namespace AutomataNet.CommandLine

/-- The files of a folder by path, the parts of a path divided by slashes. -/
structure Folder where
  files : List (String × String) := []
deriving DecidableEq, Repr, Inhabited

/-- What a path leads to. -/
inductive Place where
  | file (name : String)
  | directory
  /-- Nothing yet, in a directory that is there. -/
  | vacant (name : String)
deriving DecidableEq, Repr

/-- A directory: its parts from the folder on, or `none` when it lies outside the folder. -/
abbrev Directory := Option (List String)

namespace Folder

def text? (f : Folder) (name : String) : Option String := f.files.lookup name

def hasDirectory (f : Folder) (name : String) : Bool :=
  f.files.any fun (n, _) => (name ++ "/").toList.isPrefixOf n.toList

def longestName : Nat := 255

def longestPath : Nat := 4095

/-- What a name stands for in a directory. Outside the folder nothing is known. -/
def entry (f : Folder) (here : Directory) (name : String) : Except FileError Place :=
  if longestName < name.utf8ByteSize then .error .nameTooLong
  else
    match here with
    | none => .error .notFound
    | some parts =>
      let path := String.intercalate "/" (parts ++ [name])
      if (f.text? path).isSome then .ok (.file path)
      else if f.hasDirectory path then .ok .directory
      else .ok (.vacant path)

def isDots (part : String) : Bool := part = "." || part = ".."

/-- The directory above. -/
def above (here : Directory) : Directory := here.bind fun parts =>
  if parts.isEmpty then none else some parts.dropLast

/-- Goes from a directory into the next one. -/
def enter (f : Folder) (here : Directory) (part : String) : Except FileError Directory :=
  if part = "." then .ok here
  else if part = ".." then .ok (above here)
  else do
    match ← f.entry here part with
    | .file _ => .error .notADirectory
    | .directory => .ok (here.map (· ++ [part]))
    | .vacant _ => .error .notFound

/-- A path as it is looked up: the directory its last part stands in, that part unless there is
none, and whether a slash follows it. -/
structure Target where
  directory : Directory
  last : Option String
  slash : Bool

/-- Goes through all parts of a path but the last. -/
def target (f : Folder) (path : String) : Except FileError Target := do
  let pieces := path.splitOn "/"
  let parts := pieces.filter (· ≠ "")
  let start : Directory := if pieces.head? = some "" then none else some []
  let directory ← parts.dropLast.foldlM f.enter start
  return { directory, last := parts.getLast?, slash := pieces.getLast? = some "" }

/-- Paths that no file system looks up. -/
def checkPath (path : String) : Except FileError Unit :=
  if path.toList.contains (Char.ofNat 0) then .error .invalidPath
  else if longestPath < path.utf8ByteSize then .error .nameTooLong
  else .ok ()

/-- The files as the command sees them. With a slash at its end, a path has to lead to a
directory. -/
def reader (f : Folder) : Files := fun path => do
  checkPath path
  let t ← f.target path
  match t.last with
  | none => .ok none
  | some part =>
    if isDots part then .ok none
    else
      match ← f.entry t.directory part with
      | .file name => if t.slash then .error .notADirectory else .ok (f.text? name)
      | .directory => .ok none
      | .vacant _ => .error .notFound

/-- Writes a file, in place of one of that name. A path with a slash at its end asks for a
directory, whatever there is. -/
def create (f : Folder) (path text : String) : Except FileError Folder := do
  checkPath path
  let t ← f.target path
  match t.last with
  | none => .error .isADirectory
  | some part =>
    if isDots part || t.slash then .error .isADirectory
    else
      match ← f.entry t.directory part with
      | .file name => .ok ⟨f.files.map fun (n, t) => if n = name then (n, text) else (n, t)⟩
      | .directory => .error .isADirectory
      | .vacant name => .ok ⟨f.files ++ [(name, text)]⟩

/-- The files that are not in `before`, or differ from it. -/
def changes (f before : Folder) : List (String × String) :=
  f.files.filter fun (n, t) => before.text? n ≠ some t

end Folder

/-- Carries out the command in a folder, and gives what goes to standard output. -/
def runIn (f : Folder) (o : Options) : Report CommandError (String × Folder) := do
  let out ← run f.reader o
  match out.path with
  | none => return (out.text, f)
  | some path =>
    match f.create path out.text with
    | .ok f => return ("", f)
    | .error e => Report.fail (.cannotCreate path e)

end AutomataNet.CommandLine
