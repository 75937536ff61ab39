import AutomataNet.Json.Printer
import AutomataNet.Json.Token
import Mathlib
/-!
# Numerals

The text of a number is a numeral, or `null` (`Number.writes_text`). The scanner takes a numeral as
a whole, whatever follows that cannot belong to it (`Numeral.scan?_chars`).
-/

namespace AutomataNet

namespace Json

/-! ## Scanning -/

/-- A number cannot go on with the text. -/
def Stops (cs : List Char) : Prop :=
  ∀ c ∈ cs.head?, c.isDigit = false ∧ c ≠ '.' ∧ c ≠ 'e' ∧ c ≠ 'E'

/-- The digits before the point: at least one, and no zero in front of others. -/
structure IsWhole (ds : List Char) : Prop where
  digits : ∀ c ∈ ds, c.isDigit = true
  ne_nil : ds ≠ []
  leading : ∀ c cs, ds ≠ '0' :: c :: cs

/-- The parts of a number as it is written. Without digits after the point there is no point. -/
structure Numeral where
  negative : Bool
  whole : List Char
  fraction : List Char
  /-- Whether it is negative, and the digits. -/
  exponent : Option (Bool × List Char)
  isWhole : IsWhole whole
  fractionDigits : ∀ c ∈ fraction, c.isDigit = true
  exponentDigits : ∀ e ∈ exponent, e.2 ≠ [] ∧ ∀ c ∈ e.2, c.isDigit = true

namespace Numeral

def fractionChars : List Char → List Char
  | [] => []
  | ds => '.' :: ds

def exponentChars : Option (Bool × List Char) → List Char
  | none => []
  | some (negative, ds) => 'e' :: (if negative then '-' else '+') :: ds

def chars (n : Numeral) : List Char :=
  (if n.negative then ['-'] else []) ++
    (n.whole ++ (fractionChars n.fraction ++ exponentChars n.exponent))

def exponentValue (e : Bool × List Char) : Int :=
  if e.1 then -(digitsValue e.2 : Int) else digitsValue e.2

def token (n : Numeral) : Token :=
  numberToken n.negative n.whole n.fraction (n.exponent.map exponentValue)

end Numeral

theorem spanDigits_append {ds rest : List Char} (hds : ∀ c ∈ ds, c.isDigit = true)
    (hrest : ∀ c ∈ rest.head?, c.isDigit = false) : spanDigits (ds ++ rest) = (ds, rest) := by
  rw [spanDigits, List.takeWhile_append_of_pos hds, List.dropWhile_append_of_pos hds]
  cases rest with
  | nil => simp
  | cons c cs => simp [hrest c rfl]

theorem scanSign_cons (negative : Bool) (cs : List Char) :
    scanSign ((if negative then '-' else '+') :: cs) = (negative, cs) := by
  cases negative <;> rfl

theorem scanExponent?_exponentChars {e : Option (Bool × List Char)}
    (he : ∀ x ∈ e, x.2 ≠ [] ∧ ∀ c ∈ x.2, c.isDigit = true) {rest : List Char} (hrest : Stops rest) :
    scanExponent? (Numeral.exponentChars e ++ rest) =
      some (e.map Numeral.exponentValue, rest) := by
  cases e with
  | none =>
    cases rest with
    | nil => rfl
    | cons c cs =>
      obtain ⟨-, -, hlower, hupper⟩ := hrest c rfl
      simp [Numeral.exponentChars, scanExponent?, hlower, hupper]
  | some x =>
    obtain ⟨negative, ds⟩ := x
    obtain ⟨hne, hds⟩ := he _ rfl
    have hspan : spanDigits (ds ++ rest) = (ds, rest) :=
      spanDigits_append hds fun c hc => (hrest c hc).1
    rw [Numeral.exponentChars, List.cons_append, List.cons_append, scanExponent?]
    simp only [scanSign_cons, hspan, decide_true, Bool.true_or, if_true]
    cases ds with
    | nil => exact absurd rfl hne
    | cons d ds => rfl

theorem scanFraction?_fractionChars {ds rest : List Char} (hds : ∀ c ∈ ds, c.isDigit = true)
    (hrest : ∀ c ∈ rest.head?, c.isDigit = false ∧ c ≠ '.') :
    scanFraction? (Numeral.fractionChars ds ++ rest) = some (ds, rest) := by
  cases ds with
  | nil =>
    cases rest with
    | nil => rfl
    | cons c cs =>
      have hpoint := (hrest c rfl).2
      rw [Numeral.fractionChars, List.nil_append, scanFraction?]
      simp [hpoint]
  | cons d ds =>
    have hspan := spanDigits_append hds fun c hc => (hrest c hc).1
    simp only [Numeral.fractionChars, List.cons_append, scanFraction?] at hspan ⊢
    rw [hspan]

theorem scanUnsigned?_chars (n : Numeral) {rest : List Char} (hrest : Stops rest) :
    scanUnsigned? n.negative (n.whole ++ (Numeral.fractionChars n.fraction ++
      (Numeral.exponentChars n.exponent ++ rest))) = some (n.token, rest) := by
  have hexponent : ∀ c ∈ (Numeral.exponentChars n.exponent ++ rest).head?,
      c.isDigit = false ∧ c ≠ '.' := by
    cases n.exponent with
    | none => exact fun c hc => ⟨(hrest c hc).1, (hrest c hc).2.1⟩
    | some e =>
      rintro c ⟨⟩
      decide
  have hfraction : ∀ c ∈ (Numeral.fractionChars n.fraction ++
      (Numeral.exponentChars n.exponent ++ rest)).head?, c.isDigit = false := by
    cases n.fraction with
    | nil => exact fun c hc => (hexponent c hc).1
    | cons d ds =>
      rintro c ⟨⟩
      decide
  rw [scanUnsigned?, spanDigits_append n.isWhole.digits hfraction]
  split
  · exact absurd (congrArg Prod.fst ‹_›) n.isWhole.ne_nil
  · exact absurd (congrArg Prod.fst ‹_›) (n.isWhole.leading _ _)
  · cases ‹_ = _›
    rw [scanFraction?_fractionChars n.fractionDigits hexponent]
    dsimp only
    rw [scanExponent?_exponentChars n.exponentDigits hrest]
    rfl

theorem scan?_digit {c : Char} (hc : c.isDigit = true) (rest : List Char) :
    scan? (c :: rest) = scanUnsigned? false (c :: rest) := by
  have hother {d : Char} (hd : d.isDigit = false) : c ≠ d := by
    rintro rfl
    rw [hd] at hc
    cases hc
  have hmark : isMark c = false := by
    simp only [isMark, Bool.or_eq_false_iff, decide_eq_false_iff_not]
    exact ⟨⟨⟨⟨⟨hother (by decide), hother (by decide)⟩, hother (by decide)⟩, hother (by decide)⟩,
      hother (by decide)⟩, hother (by decide)⟩
  rw [scan?]
  · rw [hmark, if_neg Bool.false_ne_true, scanNumber?]
    rintro _ ⟨⟩
    cases hc
  all_goals
    intros
    subst_vars
    cases hc

/-- Whatever follows that cannot belong to it, a numeral is one token. -/
theorem Numeral.scan?_chars (n : Numeral) {rest : List Char} (hrest : Stops rest) :
    scan? (n.chars ++ rest) = some (n.token, rest) := by
  have hunsigned := scanUnsigned?_chars n hrest
  rw [chars, List.append_assoc, List.append_assoc, List.append_assoc]
  cases hnegative : n.negative with
  | true =>
    rw [hnegative] at hunsigned
    exact hunsigned
  | false =>
    obtain ⟨c, cs, hwhole⟩ := List.exists_cons_of_ne_nil n.isWhole.ne_nil
    have hc : c.isDigit = true := n.isWhole.digits c (hwhole ▸ List.mem_cons_self)
    rw [hnegative, hwhole] at hunsigned
    rw [hwhole, if_neg Bool.false_ne_true, List.nil_append, List.cons_append, scan?_digit hc]
    exact hunsigned

/-- The tokens that the text of a number is scanned as; `null` stands for a missing numeral. -/
inductive IsNumberToken : Token → Prop
  | null : IsNumberToken .null
  | num (n : Number) : IsNumberToken (.num n)
  | outOfRange : IsNumberToken .outOfRange

theorem isNumberToken_realToken (negative : Bool) (significand : Nat) (exponent : Int) :
    IsNumberToken (realToken negative significand exponent) := by
  unfold realToken
  cases Decimal.scaled? significand exponent with
  | none => exact .outOfRange
  | some x => exact .num _

theorem Numeral.isNumberToken (n : Numeral) : IsNumberToken n.token := by
  unfold token numberToken
  split
  split
  · split
    · split
      · exact isNumberToken_realToken ..
      · exact .num _
    · exact .num _
  · exact isNumberToken_realToken ..

end Json

/-! ## Digits -/

theorem head?_toDigits_ne_zero {n : Nat} (h : 0 < n) : (Nat.toDigits 10 n).head? ≠ some '0' := by
  induction n using Nat.strongRecOn with
  | _ n ih =>
    by_cases hn : n < 10
    · rw [Nat.toDigits_of_lt_base hn]
      interval_cases n <;> decide
    · rw [Nat.toDigits_of_base_le (by omega) (by omega),
        List.head?_append_of_ne_nil _ Nat.toDigits_ne_nil]
      exact ih (n / 10) (by omega) (by omega)

theorem isDigit_toDigits (n : Nat) : ∀ c ∈ Nat.toDigits 10 n, c.isDigit = true := fun _ hc =>
  Nat.isDigit_of_mem_toDigits (by omega) (by omega) hc

/-- Digits that do not start with a zero. -/
structure IsSignificant (ds : List Char) : Prop where
  digits : ∀ c ∈ ds, c.isDigit = true
  ne_nil : ds ≠ []
  leading : ds.head? ≠ some '0'

theorem isSignificant_toDigits {n : Nat} (h : 0 < n) : IsSignificant (Nat.toDigits 10 n) :=
  ⟨isDigit_toDigits n, Nat.toDigits_ne_nil, head?_toDigits_ne_zero h⟩

theorem IsSignificant.append {ds es : List Char} (h : IsSignificant ds)
    (hes : ∀ c ∈ es, c.isDigit = true) : IsSignificant (ds ++ es) where
  digits := List.forall_mem_append.2 ⟨h.digits, hes⟩
  ne_nil := List.append_ne_nil_of_left_ne_nil h.ne_nil es
  leading := by
    rw [List.head?_append_of_ne_nil _ h.ne_nil]
    exact h.leading

theorem IsSignificant.isWhole {ds : List Char} (h : IsSignificant ds) : Json.IsWhole ds where
  digits := h.digits
  ne_nil := h.ne_nil
  leading := by
    rintro c cs rfl
    exact h.leading rfl

theorem isWhole_digit {c : Char} (hc : c.isDigit = true) : Json.IsWhole [c] where
  digits := List.forall_mem_singleton.2 hc
  ne_nil := List.cons_ne_nil _ _
  leading := by
    rintro _ _ ⟨⟩

theorem isWhole_toDigits (n : Nat) : Json.IsWhole (Nat.toDigits 10 n) := by
  rcases Nat.eq_zero_or_pos n with rfl | hn
  · exact isWhole_digit (by decide)
  · exact (isSignificant_toDigits hn).isWhole

namespace Decimal

/-- Zeros at the end do not matter for the first digit. -/
theorem isSignificant_stripZeros {ds : List Char} (h : IsSignificant ds) :
    IsSignificant (stripZeros ds) := by
  have hfront : ds.rdropWhile (· = '0') <+: ds := List.rdropWhile_prefix _ ds
  have hne : ds.rdropWhile (· = '0') ≠ [] := by
    intro hnil
    obtain ⟨d, rest, rfl⟩ := List.exists_cons_of_ne_nil h.ne_nil
    have hzero := List.rdropWhile_eq_nil_iff.1 hnil d List.mem_cons_self
    exact h.leading (by simpa using hzero)
  have hstrip : stripZeros ds = ds.rdropWhile (· = '0') := by
    unfold stripZeros
    split
    · exact absurd ‹_› hne
    · rfl
  rw [hstrip]
  refine ⟨fun c hc => h.digits c (hfront.subset hc), hne, ?_⟩
  obtain ⟨rest, hrest⟩ := hfront
  have hhead := h.leading
  rwa [← hrest, List.head?_append_of_ne_nil _ hne] at hhead

theorem power_pos (base : Nat) (hbase : 0 < base) (exponent : Int) : 0 < power base exponent :=
  Nat.pow_pos hbase

/-- A bracket that lies above zero holds no grid point at zero. -/
theorem gridPoint?_pos {b : Bracket} (hlower : 0 < b.lower) {scale : Int} {c : Nat}
    (h : b.gridPoint? scale = some c) : 0 < c := by
  have hup : 0 < b.lower * power 10 (-scale) := Nat.mul_pos hlower (power_pos 10 (by omega) _)
  rw [Nat.pos_iff_ne_zero]
  rintro rfl
  unfold Bracket.gridPoint? at h
  dsimp only at h
  generalize b.den * power 10 scale = unit, b.value * power 10 (-scale) = value at h
  generalize b.lower * power 10 (-scale) = lower at hup h
  generalize value / unit = below at h
  have houtside (p q : Bool) :
      (if b.closed then decide (lower ≤ 0) && p else decide (lower < 0) && q) = false := by
    rw [decide_eq_false (Nat.not_le.2 hup), decide_eq_false (Nat.not_lt_zero lower)]
    split <;> rfl
  -- only the lower of the two candidates can be zero
  split at h
  case h_1 hinside _ =>
    split at h
    · obtain rfl := Option.some.inj h
      rw [Nat.zero_mul, houtside] at hinside
      cases hinside
    · exact absurd (Option.some.inj h) (Nat.succ_ne_zero below)
  case h_2 hinside _ =>
    obtain rfl := Option.some.inj h
    rw [Nat.zero_mul, houtside] at hinside
    cases hinside
  case h_3 => exact absurd (Option.some.inj h) (Nat.succ_ne_zero below)
  case h_4 => cases h

theorem lower_bracket_pos {b : Binary} (h : b.mantissa ≠ 0) : 0 < b.bracket.lower := by
  refine Nat.mul_pos ?_ (power_pos 2 (by omega) _)
  split <;> omega

/-- The shortest text has no zero in front, unless it is the one that is never needed. -/
theorem digits_shortest {b : Binary} (h : b.mantissa ≠ 0) :
    IsSignificant (shortest b).digits ∨ shortest b = ⟨['0'], 0⟩ := by
  unfold shortest
  dsimp only
  cases hfound : (List.range 17).findSome? _ with
  | none => exact .inr rfl
  | some s =>
    obtain ⟨n, -, hn⟩ := List.exists_of_findSome?_eq_some hfound
    obtain ⟨c, hc, rfl⟩ := Option.map_eq_some_iff.1 hn
    have hpos := gridPoint?_pos (lower_bracket_pos h) hc
    exact .inl (isSignificant_stripZeros (isSignificant_toDigits hpos))

end Decimal

/-! ## Texts of numbers -/

namespace Json.Numeral

theorem fractionChars_of_ne_nil {ds : List Char} (h : ds ≠ []) : fractionChars ds = '.' :: ds := by
  cases ds with
  | nil => exact absurd rfl h
  | cons => rfl

/-- A text that stands for a number of this sign. -/
def Writes (negative : Bool) (text : String) : Prop :=
  ∃ n : Numeral, n.negative = negative ∧ text.toList = n.chars

theorem Writes.neg {text : String} (h : Writes false text) : Writes true ("-" ++ text) := by
  obtain ⟨n, hn, htext⟩ := h
  refine ⟨{ n with negative := true }, rfl, ?_⟩
  rw [String.toList_append, htext, chars, chars, hn]
  rfl

theorem writes_decimal (whole fraction : List Char) (hwhole : IsWhole whole)
    (hdigits : ∀ c ∈ fraction, c.isDigit = true) (hne : fraction ≠ []) {text : String}
    (htext : text.toList = whole ++ '.' :: fraction) : Writes false text := by
  refine ⟨⟨false, whole, fraction, none, hwhole, hdigits, by simp⟩, rfl, ?_⟩
  rw [htext, chars, fractionChars_of_ne_nil hne]
  exact congrArg (whole ++ ·) (List.append_nil _).symm

theorem writes_nat (n : Nat) : Writes false (toString n) := by
  refine ⟨⟨false, Nat.toDigits 10 n, [], none, isWhole_toDigits n, List.forall_mem_nil _, by simp⟩,
    rfl, ?_⟩
  rw [Nat.toString_eq_repr, Nat.toList_repr]
  exact (List.append_nil _).symm

end Json.Numeral

namespace RealLayout

open Json Json.Numeral

variable {s : Decimal.Scientific}

theorem isDigit_replicate (n : Nat) : ∀ c ∈ List.replicate n '0', c.isDigit = true := by
  intro c hc
  rw [List.eq_of_mem_replicate hc]
  decide

/-- Zeros are put in front of the digits, or after them, or the point is put between them. -/
theorem writes_plain (h : IsSignificant s.digits) : Writes false (plain s) := by
  unfold plain
  split
  · generalize (-s.exponent - 1).toNat = n
    refine writes_decimal ['0'] (List.replicate n '0' ++ s.digits) (isWhole_digit (by decide))
      (List.forall_mem_append.2 ⟨isDigit_replicate n, h.digits⟩)
      (List.append_ne_nil_of_right_ne_nil _ h.ne_nil) ?_
    simp
  · dsimp only
    generalize s.exponent.toNat = n
    have htake : IsSignificant (s.digits.take (n + 1)) := by
      obtain ⟨d, ds, hds⟩ := List.exists_cons_of_ne_nil h.ne_nil
      have hleading := h.leading
      refine ⟨fun c hc => h.digits c (List.mem_of_mem_take hc), ?_, ?_⟩ <;>
        rw [hds, List.take_succ_cons]
      · exact List.cons_ne_nil _ _
      · rwa [hds] at hleading
    have hwhole := (htake.append (isDigit_replicate (n + 1 - s.digits.length))).isWhole
    cases hdrop : s.digits.drop (n + 1) with
    | nil =>
      refine writes_decimal _ ['0'] hwhole (List.forall_mem_singleton.2 (by decide))
        (List.cons_ne_nil _ _) ?_
      simp
    | cons d ds =>
      have hdigits : ∀ c ∈ d :: ds, c.isDigit = true := fun c hc =>
        h.digits c (List.mem_of_mem_drop (hdrop ▸ hc))
      refine writes_decimal _ _ hwhole hdigits (List.cons_ne_nil _ _) ?_
      simp

theorem writes_scientific (h : IsSignificant s.digits) : Writes false (scientific s) := by
  obtain ⟨d, ds, hds⟩ := List.exists_cons_of_ne_nil h.ne_nil
  have hdigits := hds ▸ h.digits
  refine ⟨⟨false, [d], ds, some (decide (s.exponent < 0), Nat.toDigits 10 s.exponent.natAbs),
    isWhole_digit (hdigits d List.mem_cons_self),
    fun c hc => hdigits c (List.mem_cons_of_mem d hc), ?_⟩, rfl, ?_⟩
  · rintro _ ⟨⟩
    exact ⟨Nat.toDigits_ne_nil, isDigit_toDigits _⟩
  · have hsign : (if s.exponent < 0 then "e-" else "e+").toList =
        ['e', if s.exponent < 0 then '-' else '+'] := by
      split <;> rfl
    have hfraction : (if ds.isEmpty then "" else "." ++ String.ofList ds).toList =
        fractionChars ds := by
      cases ds <;> simp [fractionChars]
    simp only [scientific, hds, List.take_succ_cons, List.take_zero, List.drop_succ_cons,
      List.drop_zero, String.toList_append, String.toList_ofList, hsign, hfraction,
      Nat.toString_eq_repr, Nat.toList_repr]
    simp [chars, exponentChars]

theorem writes_write (l : RealLayout) (h : IsSignificant s.digits) : Writes false (l.write s) := by
  unfold write
  split
  · exact writes_plain h
  · exact writes_scientific h

end RealLayout

namespace Number

open Json.Numeral

theorem writes_magnitude (b : Decimal.Binary) :
    Writes false (if b.mantissa = 0 then "0.0" else layout.write (Decimal.shortest b)) := by
  have hzero : Writes false "0.0" :=
    writes_decimal ['0'] ['0'] (isWhole_digit (by decide)) (List.forall_mem_singleton.2 (by decide))
      (List.cons_ne_nil _ _) rfl
  split
  · exact hzero
  · rename_i h
    rcases Decimal.digits_shortest h with hdigits | hshortest
    · exact RealLayout.writes_write layout hdigits
    · rw [hshortest]
      exact hzero

/-- Numbers are written as numerals, except for those that JSON has no numerals for. -/
theorem writes_text (n : Number) : n.text = "null" ∨ ∃ negative, Writes negative n.text := by
  cases n with
  | int n =>
    right
    cases n with
    | ofNat n => exact ⟨false, writes_nat n⟩
    | negSucc n => exact ⟨true, (writes_nat (n + 1)).neg⟩
  | real x =>
    by_cases hx : x.isFinite = true
    · right
      rw [text, if_pos hx, realText]
      split
      · exact ⟨true, (writes_magnitude _).neg⟩
      · exact ⟨false, writes_magnitude _⟩
    · exact .inl (if_neg hx)

end Number

end AutomataNet
