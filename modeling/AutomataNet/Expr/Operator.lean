/-!
Operators of the expression and property languages, with their spelling in model files.
-/

namespace AutomataNet

/-- An operator. Array values are not among them: they are a kind of expression of their own. -/
inductive Op where
  /-- If-then-else, operands `if`, `then`, `else`. -/
  | ite
  | or
  | and
  | not
  | implies
  | eq
  | neq
  | less
  | leq
  | greater
  | geq
  | plus
  | minus
  | times
  | modulo
  | divide
  | pow
  | log
  | floor
  | ceil
  | abs
  | sgn
  | min
  | max
  /-- Truncation towards zero. -/
  | trc
  | sin
  | cos
  | tan
  /-- An array's cell, operands `exp` (the array) and `index`. -/
  | arrayAccess
  /-- An array given by an expression over its index. -/
  | arrayConstructor
  /-- The top of most properties, operands `fun`, `values`, `states`. -/
  | filter
  | pmin
  | pmax
  | emin
  | emax
  | smin
  | smax
  | until
  | weakUntil
  | eventually
  | always
  /-- On some run. -/
  | someRun
  /-- On every run. -/
  | everyRun
  /-- The set of initial states. -/
  | initial
  | deadlock
  | timelock
deriving DecidableEq, Repr, Inhabited

namespace Op

/-- All operators, in the order in which they are listed to the user. -/
def all : List Op :=
  [.ite, .or, .and, .not, .implies, .eq, .neq, .less, .leq, .greater, .geq, .plus, .minus, .times,
   .modulo, .divide, .pow, .log, .floor, .ceil, .abs, .sgn, .min, .max, .trc, .sin, .cos, .tan,
   .arrayAccess, .arrayConstructor, .filter, .pmin, .pmax, .emin, .emax, .smin, .smax, .until,
   .weakUntil, .eventually, .always, .someRun, .everyRun, .initial, .deadlock, .timelock]

/-- How the operator is written in a model file. -/
def spelling : Op → String
  | .ite => "ite"
  | .or => "∨"
  | .and => "∧"
  | .not => "¬"
  | .implies => "⇒"
  | .eq => "="
  | .neq => "≠"
  | .less => "<"
  | .leq => "≤"
  | .greater => ">"
  | .geq => "≥"
  | .plus => "+"
  | .minus => "-"
  | .times => "*"
  | .modulo => "%"
  | .divide => "/"
  | .pow => "pow"
  | .log => "log"
  | .floor => "floor"
  | .ceil => "ceil"
  | .abs => "abs"
  | .sgn => "sgn"
  | .min => "min"
  | .max => "max"
  | .trc => "trc"
  | .sin => "sin"
  | .cos => "cos"
  | .tan => "tan"
  | .arrayAccess => "aa"
  | .arrayConstructor => "ac"
  | .filter => "filter"
  | .pmin => "Pmin"
  | .pmax => "Pmax"
  | .emin => "Emin"
  | .emax => "Emax"
  | .smin => "Smin"
  | .smax => "Smax"
  | .until => "U"
  | .weakUntil => "W"
  | .eventually => "F"
  | .always => "G"
  | .someRun => "∃"
  | .everyRun => "∀"
  | .initial => "initial"
  | .deadlock => "deadlock"
  | .timelock => "timelock"

/-- How the operator is called in messages. -/
def name : Op → String
  | .ite => "Ite"
  | .or => "Or"
  | .and => "And"
  | .not => "Not"
  | .implies => "Implies"
  | .eq => "Eq"
  | .neq => "Neq"
  | .less => "Less"
  | .leq => "Leq"
  | .greater => "Greater"
  | .geq => "Geq"
  | .plus => "Plus"
  | .minus => "Minus"
  | .times => "Times"
  | .modulo => "Modulo"
  | .divide => "Divide"
  | .pow => "Pow"
  | .log => "Log"
  | .floor => "Floor"
  | .ceil => "Ceil"
  | .abs => "Abs"
  | .sgn => "Sgn"
  | .min => "Min"
  | .max => "Max"
  | .trc => "Trc"
  | .sin => "Sin"
  | .cos => "Cos"
  | .tan => "Tan"
  | .arrayAccess => "ArrayAccess"
  | .arrayConstructor => "ArrayConstructor"
  | .filter => "Filter"
  | .pmin => "Pmin"
  | .pmax => "Pmax"
  | .emin => "Emin"
  | .emax => "Emax"
  | .smin => "Smin"
  | .smax => "Smax"
  | .until => "Until"
  | .weakUntil => "WeakUntil"
  | .eventually => "Eventually"
  | .always => "Always"
  | .someRun => "Exists"
  | .everyRun => "Forall"
  | .initial => "Initial"
  | .deadlock => "Deadlock"
  | .timelock => "Timelock"

def ofSpelling? (s : String) : Option Op := all.find? (·.spelling = s)

/-- Reading undoes writing. -/
theorem ofSpelling?_spelling (op : Op) : ofSpelling? op.spelling = some op := by
  cases op <;> rfl

end Op

end AutomataNet
