import AutomataNet.Decimal.Scaled
import AutomataNet.Json.Basic
/-!
Tokens of JSON text. Scanning never fails: where the text stops being JSON it ends in a `broken`
token, and whoever reads the tokens decides whether that place is ever reached.
-/

namespace AutomataNet.Json

/-- A token. -/
inductive Token where
  /-- One of the six structural characters. -/
  | mark (c : Char)
  | null
  | bool (b : Bool)
  | num (n : Number)
  | str (s : String)
  /-- A number too large for a double: well-formed, but no value. -/
  | outOfRange
  /-- A string with an unpaired surrogate escape: well-formed, but no text. -/
  | unpaired
  /-- Here the text is not JSON. -/
  | broken
deriving Inhabited

/-! ## Strings -/

/-- A piece of a string: a character, or a UTF-16 unit given by a numeric escape. -/
inductive Piece where
  | char (c : Char)
  | unit (u : Nat)

def hexValue? (c : Char) : Option Nat :=
  if c.isDigit then some (c.toNat - 48)
  else if 'a' ≤ c && c ≤ 'f' then some (c.toNat - 87)
  else if 'A' ≤ c && c ≤ 'F' then some (c.toNat - 55)
  else none

def hexUnit? (a b c d : Char) : Option Nat := do
  return (((← hexValue? a) * 16 + (← hexValue? b)) * 16 + (← hexValue? c)) * 16 + (← hexValue? d)

/-- The character a one-letter escape stands for. -/
def unescape? (c : Char) : Option Char :=
  if c = '"' || c = '\\' || c = '/' then some c
  else if c = 'b' then some (Char.ofNat 8)
  else if c = 'f' then some (Char.ofNat 12)
  else if c = 'n' then some '\n'
  else if c = 'r' then some '\r'
  else if c = 't' then some '\t'
  else none

/-- Pieces up to the closing quote, with what follows it; `acc` holds the pieces before. A control
character, an unknown escape or a missing quote gives `none`. -/
def pieces? (acc : List Piece) : List Char → Option (List Piece × List Char)
  | [] => none
  | '"' :: rest => some (acc.reverse, rest)
  | '\\' :: 'u' :: a :: b :: c :: d :: rest =>
    match hexUnit? a b c d with
    | some u => pieces? (.unit u :: acc) rest
    | none => none
  | '\\' :: c :: rest =>
    match unescape? c with
    | some c => pieces? (.char c :: acc) rest
    | none => none
  | c :: rest => if c.toNat < 32 || c = '\\' then none else pieces? (.char c :: acc) rest

def isHighSurrogate (u : Nat) : Bool := 0xD800 ≤ u && u < 0xDC00

def isLowSurrogate (u : Nat) : Bool := 0xDC00 ≤ u && u < 0xE000

/-- Joins surrogate pairs; `none` if a surrogate has no partner right beside it. -/
def joinPieces? (acc : List Char) : List Piece → Option (List Char)
  | [] => some acc.reverse
  | .char c :: rest => joinPieces? (c :: acc) rest
  | .unit u :: .unit v :: rest =>
    if isHighSurrogate u then
      if isLowSurrogate v then
        joinPieces? (Char.ofNat (0x10000 + (u - 0xD800) * 0x400 + (v - 0xDC00)) :: acc) rest
      else none
    else if isLowSurrogate u then none
    else joinPieces? (Char.ofNat u :: acc) (.unit v :: rest)
  | .unit u :: rest =>
    if isHighSurrogate u || isLowSurrogate u then none else joinPieces? (Char.ofNat u :: acc) rest

/-- Scans what follows an opening quote. -/
def scanString? (cs : List Char) : Option (Token × List Char) :=
  match pieces? [] cs with
  | none => none
  | some (ps, rest) =>
    match joinPieces? [] ps with
    | some text => some (.str (String.ofList text), rest)
    | none => some (.unpaired, rest)

/-! ## Numbers -/

/-- Digits at the front, and the rest. -/
def spanDigits (cs : List Char) : List Char × List Char :=
  (cs.takeWhile Char.isDigit, cs.dropWhile Char.isDigit)

def digitsValue (ds : List Char) : Nat := ds.foldl (fun n c => 10 * n + (c.toNat - 48)) 0

/-- A fraction part, possibly empty; `none` for a point without digits. -/
def scanFraction? : List Char → Option (List Char × List Char)
  | '.' :: rest => match spanDigits rest with
    | ([], _) => none
    | (ds, rest) => some (ds, rest)
  | rest => some ([], rest)

def scanSign : List Char → Bool × List Char
  | '-' :: rest => (true, rest)
  | '+' :: rest => (false, rest)
  | rest => (false, rest)

/-- An exponent part; `none` for a mark without digits, `some none` for no exponent. -/
def scanExponent? : List Char → Option (Option Int × List Char)
  | c :: rest =>
    if c = 'e' || c = 'E' then
      let (negative, rest) := scanSign rest
      match spanDigits rest with
      | ([], _) => none
      | (ds, rest) =>
        let n : Int := digitsValue ds
        some (some (if negative then -n else n), rest)
    else some (none, c :: rest)
  | [] => some (none, [])

/-- Takes digits into a significand as long as it fits 64 bits, and gives back those left over. -/
def absorb (significand : Nat) : List Char → Nat × List Char
  | [] => (significand, [])
  | d :: ds =>
    let n := 10 * significand + (d.toNat - 48)
    if n < UInt64.size then absorb n ds else (significand, d :: ds)

/-- A double from its significand and decimal exponent. -/
def realToken (negative : Bool) (significand : Nat) (exponent : Int) : Token :=
  match Decimal.scaled? significand exponent with
  | some x => .num (.real (if negative then -x else x))
  | none => .outOfRange

/-- The value of a number: an integer if it has neither fraction nor exponent and fits 64 bits
(signed below zero, unsigned above), else a double. Minus zero is a double. Digits that do not fit
the significand any more count only for the exponent. -/
def numberToken (negative : Bool) (whole fraction : List Char) (exponent : Option Int) : Token :=
  let (n, excess) := absorb 0 whole
  match excess, fraction, exponent with
  | [], [], none =>
    if negative then
      if n = 0 || -(n : Int) < Int64.minValue.toInt then realToken true n 0
      else .num (.int (-(n : Int)))
    else .num (.int n)
  | _, _, _ =>
    let (m, unused) := absorb n fraction
    let places : Int := fraction.length - unused.length
    realToken negative m (exponent.getD 0 + excess.length - places)

/-- Scans what follows an optional minus sign. -/
def scanUnsigned? (negative : Bool) (cs : List Char) : Option (Token × List Char) :=
  match spanDigits cs with
  | ([], _) => none
  | ('0' :: _ :: _, _) => none
  | (whole, rest) =>
    match scanFraction? rest with
    | none => none
    | some (fraction, rest) =>
      match scanExponent? rest with
      | none => none
      | some (exponent, rest) => some (numberToken negative whole fraction exponent, rest)

def scanNumber? : List Char → Option (Token × List Char)
  | '-' :: rest => scanUnsigned? true rest
  | cs => scanUnsigned? false cs

/-! ## Text -/

def isMark (c : Char) : Bool :=
  c = '[' || c = ']' || c = '\x7b' || c = '\x7d' || c = ',' || c = ':'

def isBlank (c : Char) : Bool := c = ' ' || c = '\n' || c = '\t' || c = '\r'

/-- The token at the front, of a text that does not start with a blank. -/
def scan? : List Char → Option (Token × List Char)
  | [] => none
  | '"' :: rest => scanString? rest
  | 'n' :: 'u' :: 'l' :: 'l' :: rest => some (.null, rest)
  | 't' :: 'r' :: 'u' :: 'e' :: rest => some (.bool true, rest)
  | 'f' :: 'a' :: 'l' :: 's' :: 'e' :: rest => some (.bool false, rest)
  | c :: rest => if isMark c then some (.mark c, rest) else scanNumber? (c :: rest)

theorem pieces?_length {acc : List Piece} {cs : List Char} {ps : List Piece} {rest : List Char}
    (h : pieces? acc cs = some (ps, rest)) : rest.length < cs.length := by
  fun_induction pieces? acc cs with
  | case1 => simp at h
  | case2 => simp_all
  | case3 acc a b c d r u hu ih => have := ih h; simp; omega
  | case4 => simp at h
  | case5 acc c r hc u hu ih => have := ih h; simp; omega
  | case6 => simp at h
  | case7 => simp at h
  | case8 acc c r _ _ _ _ ih => have := ih h; simp; omega

theorem scanString?_length {cs : List Char} {t : Token} {rest : List Char}
    (h : scanString? cs = some (t, rest)) : rest.length < cs.length := by
  unfold scanString? at h
  split at h
  · simp at h
  · next hp => split at h <;> (simp at h; obtain ⟨_, rfl⟩ := h; exact pieces?_length hp)

theorem spanDigits_length (cs : List Char) :
    (spanDigits cs).1.length + (spanDigits cs).2.length = cs.length := by
  have := congrArg List.length (List.takeWhile_append_dropWhile (p := Char.isDigit) (l := cs))
  rwa [List.length_append] at this

theorem scanFraction?_length {cs ds rest : List Char} (h : scanFraction? cs = some (ds, rest)) :
    rest.length ≤ cs.length := by
  unfold scanFraction? at h
  split at h
  · next r =>
    have := spanDigits_length r
    split at h
    · simp at h
    · next hs => simp at h; obtain ⟨_, rfl⟩ := h; simp [hs] at this; simp; omega
  · simp at h; simp [h]

theorem scanSign_length (cs : List Char) : (scanSign cs).2.length ≤ cs.length := by
  unfold scanSign; split <;> simp

theorem scanExponent?_length {cs rest : List Char} {e : Option Int}
    (h : scanExponent? cs = some (e, rest)) : rest.length ≤ cs.length := by
  unfold scanExponent? at h
  split at h
  · next c r =>
    split at h
    · have h1 := scanSign_length r
      have h2 := spanDigits_length (scanSign r).2
      simp only at h
      split at h
      · simp at h
      · next hs => simp at h; obtain ⟨_, rfl⟩ := h; simp [hs] at h2; simp; omega
    · simp at h; simp [← h.2]
  · simp at h; simp [← h.2]

theorem scanUnsigned?_length {b : Bool} {cs : List Char} {t : Token} {rest : List Char}
    (h : scanUnsigned? b cs = some (t, rest)) : rest.length < cs.length := by
  unfold scanUnsigned? at h
  have h1 := spanDigits_length cs
  split at h
  · simp at h
  · simp at h
  · next whole r hne _ hs =>
    rw [hs] at h1
    have hw : 0 < whole.length := by
      cases whole with
      | nil => exact absurd rfl hne
      | cons => simp
    split at h
    · simp at h
    · next hf =>
      split at h
      · simp at h
      · next he =>
        simp at h; obtain ⟨_, rfl⟩ := h
        have h2 := scanFraction?_length hf
        have h3 := scanExponent?_length he
        simp at h1; omega

theorem scanNumber?_length {cs : List Char} {t : Token} {rest : List Char}
    (h : scanNumber? cs = some (t, rest)) : rest.length < cs.length := by
  unfold scanNumber? at h
  split at h
  · have := scanUnsigned?_length h; simp; omega
  · exact scanUnsigned?_length h

theorem scan?_length {cs : List Char} {t : Token} {rest : List Char}
    (h : scan? cs = some (t, rest)) : rest.length < cs.length := by
  unfold scan? at h
  split at h
  · simp at h
  · have := scanString?_length h; simp; omega
  · simp at h; simp [← h.2]; omega
  · simp at h; simp [← h.2]; omega
  · simp at h; simp [← h.2]; omega
  · split at h
    · simp at h; simp [← h.2]
    · exact scanNumber?_length h

theorem length_dropBlanks (cs : List Char) : (cs.dropWhile isBlank).length ≤ cs.length := by
  have := congrArg List.length (List.takeWhile_append_dropWhile (p := isBlank) (l := cs))
  rw [List.length_append] at this
  omega

/-- All tokens of a text; a `broken` token is the last one. -/
def tokens (cs : List Char) : List Token :=
  match _hb : cs.dropWhile isBlank with
  | [] => []
  | c :: rest =>
    match _hs : scan? (c :: rest) with
    | none => [.broken]
    | some (t, rest') => t :: tokens rest'
termination_by cs.length
decreasing_by
  have h1 := scan?_length _hs
  have h2 := length_dropBlanks cs
  rw [_hb] at h2
  omega

end AutomataNet.Json
