import AutomataNet.Json.Token
/-!
Trees of JSON text as far as it can be read.

A `Node` is a JSON value in which some places may be unreadable. The tree of a text is built for
every text, and a reader that goes through it in order meets the first problem of the text first,
whether that is a value of the wrong shape or the place where the text stops being JSON. A reader
that skips a part only asks whether that part is well-formed.
-/

namespace AutomataNet

/-- A JSON value with unreadable places. Repeated fields are kept. -/
inductive Node where
  | null
  | bool (b : Bool)
  | num (n : Number)
  | str (s : String)
  | arr (items : List Node)
  /-- A field name is `none` if it cannot be read. -/
  | obj (fields : List (Option String × Node))
  /-- No value can be read here. When `wellFormed`, the place can still be skipped over. -/
  | unreadable (wellFormed : Bool)
deriving Inhabited

namespace Node

/-- The place where a text stops being JSON. -/
def broken : Node := .unreadable false

mutual

/-- The node can be skipped: the text does not break off inside it. -/
def skippable : Node → Bool
  | .arr items => skippableItems items
  | .obj fields => skippableFields fields
  | .unreadable wellFormed => wellFormed
  | _ => true

def skippableItems : List Node → Bool
  | [] => true
  | n :: ns => skippable n && skippableItems ns

def skippableFields : List (Option String × Node) → Bool
  | [] => true
  | (_, n) :: fs => skippable n && skippableFields fs

end

mutual

/-- Every place of the node can be read. -/
def readable : Node → Bool
  | .arr items => readableItems items
  | .obj fields => readableFields fields
  | .unreadable _ => false
  | _ => true

def readableItems : List Node → Bool
  | [] => true
  | n :: ns => readable n && readableItems ns

def readableFields : List (Option String × Node) → Bool
  | [] => true
  | (key, n) :: fs => key.isSome && readable n && readableFields fs

end

/-! ## Values -/

mutual

/-- A JSON value as a node; all of it is readable. -/
def ofJson : Json → Node
  | .null => .null
  | .bool b => .bool b
  | .num n => .num n
  | .str s => .str s
  | .arr items => .arr (ofJsonItems items)
  | .obj fields => .obj (ofJsonFields fields)

def ofJsonItems : List Json → List Node
  | [] => []
  | j :: js => ofJson j :: ofJsonItems js

def ofJsonFields : List (String × Json) → List (Option String × Node)
  | [] => []
  | (k, j) :: fs => (some k, ofJson j) :: ofJsonFields fs

end

/-- Sets a field: a repeated one keeps its first position and takes the new value. -/
def setField (key : String) (value : Json) : List (String × Json) → List (String × Json)
  | [] => [(key, value)]
  | (k, j) :: fs => if k = key then (k, value) :: fs else (k, j) :: setField key value fs

mutual

/-- The value of a node that is readable throughout. -/
def toJson? : Node → Option Json
  | .null => some .null
  | .bool b => some (.bool b)
  | .num n => some (.num n)
  | .str s => some (.str s)
  | .arr items => (toJsonItems? items).map .arr
  | .obj fields => (toJsonFields? [] fields).map .obj
  | .unreadable _ => none

def toJsonItems? : List Node → Option (List Json)
  | [] => some []
  | n :: ns => do
    let j ← toJson? n
    let js ← toJsonItems? ns
    return j :: js

/-- Fields in the order of their first occurrence; `seen` holds those before. -/
def toJsonFields? (seen : List (String × Json)) : List (Option String × Node) →
    Option (List (String × Json))
  | [] => some seen
  | (some k, n) :: fs => do
    let j ← toJson? n
    toJsonFields? (setField k j seen) fs
  | (none, _) :: _ => none

end

/-! ## Text -/

/-- Containers nest at most this deep; a deeper one is well-formed but cannot be read. -/
def maxDepth : Nat := 127

/-- A container that is still open, with its entries so far, last one first. -/
inductive Frame where
  | arr (items : List Node)
  /-- The entries before, and the name of the field being read. -/
  | obj (fields : List (Option String × Node)) (key : Option String)

/-- The container with one more entry, when `outer` others are open around it. -/
def Frame.fill (outer : Nat) (entry : Node) : Frame → Node
  | .arr items => limit (.arr (entry :: items).reverse)
  | .obj fields key => limit (.obj ((key, entry) :: fields).reverse)
where
  limit (n : Node) : Node := if outer < maxDepth then n else .unreadable n.skippable

/-- Closes all open containers around the last entry that was reached. -/
def closeAll (entry : Node) : List Frame → Node
  | [] => entry
  | f :: fs => closeAll (f.fill fs.length entry) fs

/-- A text read as far as possible: its tree, and whether anything follows it. -/
structure Document where
  root : Node
  trailing : Bool

/-- The document of a text that breaks off inside the given containers. -/
def breakOff (stack : List Frame) : Document := ⟨closeAll broken stack, false⟩

def emptyContainer (outer : Nat) (n : Node) : Node :=
  if outer < maxDepth then n else .unreadable true

mutual

/-- A value is expected. -/
def readValue (stack : List Frame) : List Json.Token → Document
  | [] => breakOff stack
  | .null :: rest => readAfter .null stack rest
  | .bool b :: rest => readAfter (.bool b) stack rest
  | .num n :: rest => readAfter (.num n) stack rest
  | .str s :: rest => readAfter (.str s) stack rest
  | .outOfRange :: rest => readAfter (.unreadable true) stack rest
  | .unpaired :: rest => readAfter (.unreadable true) stack rest
  | .broken :: _ => breakOff stack
  | .mark '[' :: .mark ']' :: rest => readAfter (emptyContainer stack.length (.arr [])) stack rest
  | .mark '[' :: rest => readValue (.arr [] :: stack) rest
  | .mark '\x7b' :: .mark '\x7d' :: rest =>
    readAfter (emptyContainer stack.length (.obj [])) stack rest
  | .mark '\x7b' :: rest => readField [] stack rest
  | .mark _ :: _ => breakOff stack

/-- A field is expected, after the given ones. -/
def readField (fields : List (Option String × Node)) (stack : List Frame) :
    List Json.Token → Document
  | .str s :: .mark ':' :: rest => readValue (.obj fields (some s) :: stack) rest
  | .unpaired :: .mark ':' :: rest => readValue (.obj fields none :: stack) rest
  | .str s :: _ => breakOff (.obj fields (some s) :: stack)
  | _ => breakOff (.obj fields none :: stack)

/-- A value was just read. -/
def readAfter (value : Node) : List Frame → List Json.Token → Document
  | [], rest => ⟨value, !rest.isEmpty⟩
  | .arr items :: stack, .mark ',' :: rest => readValue (.arr (value :: items) :: stack) rest
  | .arr items :: stack, .mark ']' :: rest =>
    readAfter (Frame.fill stack.length value (.arr items)) stack rest
  | .arr items :: stack, _ => breakOff (.arr (value :: items) :: stack)
  | .obj fields key :: stack, .mark ',' :: rest => readField ((key, value) :: fields) stack rest
  | .obj fields key :: stack, .mark '\x7d' :: rest =>
    readAfter (Frame.fill stack.length value (.obj fields key)) stack rest
  | .obj fields key :: stack, _ => breakOff (.obj ((key, value) :: fields) none :: stack)

end

/-- The tree of a text. -/
def ofText (text : String) : Document := readValue [] (Json.tokens text.toList)

end Node

/-- The value of a text that is JSON throughout. -/
def Json.parse? (text : String) : Option Json :=
  let d := Node.ofText text
  if d.trailing then none else d.root.toJson?

end AutomataNet
