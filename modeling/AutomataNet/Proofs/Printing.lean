import AutomataNet.Proofs.Numerals
/-!
# Tokens of printed values

The text of a value falls into the marks of its containers, its names and strings as they are, and
one token for each number (`Json.tokens_write`). Blanks make no difference, so this holds of every
layout.
-/

namespace AutomataNet

/-! ## Strings -/

namespace Json

/-- The characters that are escaped by a letter or by themselves. -/
def lettered : List Char := ['"', '\\', '\n', '\r', '\t', Char.ofNat 8, Char.ofNat 12]

/-- What an escaped character is scanned as. The other control characters are given by their
numbers. -/
def piece (c : Char) : Piece :=
  if c.toNat < 32 ∧ c ∉ lettered then .unit c.toNat else .char c

theorem hexUnit?_hexDigit : ∀ n < 32,
    hexUnit? '0' '0' (hexDigit (n / 16)) (hexDigit (n % 16)) = some n := by
  decide

theorem eq_ofNat_of_toNat {c : Char} {n : Nat} (h : c.toNat = n) : c = Char.ofNat n := by
  rw [← h, Char.ofNat_toNat]

theorem pieces?_escape (acc : List Piece) (c : Char) (rest : List Char) :
    pieces? acc (escape c ++ rest) = pieces? (piece c :: acc) rest := by
  by_cases hletter : c ∈ lettered
  · simp only [lettered, List.mem_cons, List.not_mem_nil, or_false] at hletter
    rcases hletter with rfl | rfl | rfl | rfl | rfl | rfl | rfl <;> rfl
  · have hothers := hletter
    simp only [lettered, List.mem_cons, List.not_mem_nil, or_false, not_or] at hothers
    obtain ⟨hquote, hslash, hn, hr, ht, h8, h12⟩ := hothers
    -- two of the characters are told by their numbers
    have h8' : c.toNat ≠ 8 := fun h => h8 (eq_ofNat_of_toNat h)
    have h12' : c.toNat ≠ 12 := fun h => h12 (eq_ofNat_of_toNat h)
    by_cases hcontrol : c.toNat < 32
    · have hpiece : piece c = .unit c.toNat := if_pos ⟨hcontrol, hletter⟩
      simp only [escape, hquote, hslash, hn, hr, ht, h8', h12', hcontrol, if_true, if_false,
        List.cons_append, List.nil_append, pieces?, hexUnit?_hexDigit _ hcontrol, hpiece]
    · have hpiece : piece c = .char c := if_neg fun h => hcontrol h.1
      simp only [escape, hquote, hslash, hn, hr, ht, h8', h12', hcontrol, if_false,
        List.cons_append, List.nil_append, hpiece]
      rw [pieces?]
      · simp [hcontrol, hslash]
      all_goals simp [hquote, hslash]

theorem pieces?_flatMap_escape (acc : List Piece) (cs rest : List Char) :
    pieces? acc (cs.flatMap escape ++ '"' :: rest) =
      some (acc.reverse ++ cs.map piece, rest) := by
  induction cs generalizing acc with
  | nil => simp [pieces?]
  | cons c cs ih =>
    rw [List.flatMap_cons, List.append_assoc, pieces?_escape, ih, List.reverse_cons,
      List.append_assoc, List.map_cons, List.singleton_append]

theorem joinPieces?_unit {u : Nat} (h : u < 32) (acc : List Char) (ps : List Piece) :
    joinPieces? acc (.unit u :: ps) = joinPieces? (Char.ofNat u :: acc) ps := by
  have hhigh : isHighSurrogate u = false := by simp [isHighSurrogate]; omega
  have hlow : isLowSurrogate u = false := by simp [isLowSurrogate]; omega
  cases ps with
  | nil => simp [joinPieces?, hhigh, hlow]
  | cons p ps => cases p <;> simp [joinPieces?, hhigh, hlow]

theorem joinPieces?_map_piece (acc cs : List Char) :
    joinPieces? acc (cs.map piece) = some (acc.reverse ++ cs) := by
  induction cs generalizing acc with
  | nil => simp [joinPieces?]
  | cons c cs ih =>
    have hjoin : joinPieces? acc (piece c :: cs.map piece) =
        joinPieces? (c :: acc) (cs.map piece) := by
      unfold piece
      split
      · rename_i hcontrol
        rw [joinPieces?_unit hcontrol.1, Char.ofNat_toNat]
      · rw [joinPieces?]
    rw [List.map_cons, hjoin, ih, List.reverse_cons, List.append_assoc, List.singleton_append]

/-- A quoted string is one token, and stands for the string itself. -/
theorem scan?_quote (s : String) (rest : List Char) :
    scan? ((quote s).toList ++ rest) = some (.str s, rest) := by
  have hquote : (quote s).toList ++ rest = '"' :: (s.toList.flatMap escape ++ '"' :: rest) := by
    simp [quote]
  rw [hquote, scan?, scanString?, pieces?_flatMap_escape]
  simp [joinPieces?_map_piece]

/-! ## Blanks and marks -/

theorem isBlank_cases {c : Char} (hc : isBlank c = true) :
    c = ' ' ∨ c = '\n' ∨ c = '\t' ∨ c = '\r' := by
  simpa [isBlank, or_assoc] using hc

theorem scan?_blank {c : Char} (hc : isBlank c = true) (rest : List Char) :
    scan? (c :: rest) = none := by
  rcases isBlank_cases hc with rfl | rfl | rfl | rfl <;> rfl

theorem tokens_nil : tokens [] = [] := by
  simp [tokens]

theorem tokens_blank {c : Char} (hc : isBlank c = true) (rest : List Char) :
    tokens (c :: rest) = tokens rest := by
  rw [tokens, tokens.eq_def rest]
  rcases isBlank_cases hc with rfl | rfl | rfl | rfl <;> rfl

theorem tokens_blanks {bs : List Char} (hbs : ∀ c ∈ bs, isBlank c = true) (rest : List Char) :
    tokens (bs ++ rest) = tokens rest := by
  induction bs with
  | nil => rfl
  | cons b bs ih =>
    obtain ⟨hb, hbs⟩ := List.forall_mem_cons.1 hbs
    rw [List.cons_append, tokens_blank hb, ih hbs]

theorem tokens_scan {cs rest : List Char} {t : Token} (h : scan? cs = some (t, rest)) :
    tokens cs = t :: tokens rest := by
  cases cs with
  | nil => cases h
  | cons c cs =>
    have hblank : ¬isBlank c = true := by
      intro hc
      rw [scan?_blank hc] at h
      cases h
    have hdrop : (c :: cs).dropWhile isBlank = c :: cs := List.dropWhile_cons_of_neg hblank
    rw [tokens]
    split
    · simp_all
    · split <;> simp_all

theorem isMark_cases {c : Char} (hc : isMark c = true) :
    c = '[' ∨ c = ']' ∨ c = '\x7b' ∨ c = '\x7d' ∨ c = ',' ∨ c = ':' := by
  simpa [isMark, or_assoc] using hc

theorem tokens_mark {c : Char} (hc : isMark c = true) (rest : List Char) :
    tokens (c :: rest) = .mark c :: tokens rest := by
  apply tokens_scan
  rcases isMark_cases hc with rfl | rfl | rfl | rfl | rfl | rfl <;> rfl

theorem tokens_quote (s : String) (rest : List Char) :
    tokens ((quote s).toList ++ rest) = .str s :: tokens rest :=
  tokens_scan (scan?_quote s rest)

theorem stops_nil : Stops [] := by
  rintro _ ⟨⟩

theorem stops_blanks {bs : List Char} (hbs : ∀ c ∈ bs, isBlank c = true) : Stops bs := by
  intro c hc
  rcases isBlank_cases (hbs c (List.mem_of_mem_head? hc)) with rfl | rfl | rfl | rfl <;> decide

theorem stops_mark {c : Char} (hc : isMark c = true) (rest : List Char) : Stops (c :: rest) := by
  rintro _ ⟨⟩
  rcases isMark_cases hc with rfl | rfl | rfl | rfl | rfl | rfl <;> decide

end Json

/-! ## Numbers -/

namespace Number

open Json

/-- What the text of a number is scanned as. -/
def token (n : Number) : Token := (tokens n.text.toList).headD .broken

theorem scan?_text (n : Number) : ∃ t, IsNumberToken t ∧
    ∀ rest, Stops rest → scan? (n.text.toList ++ rest) = some (t, rest) := by
  rcases n.writes_text with hnull | ⟨_, numeral, -, htext⟩
  · refine ⟨.null, .null, fun rest _ => ?_⟩
    rw [hnull]
    rfl
  · refine ⟨numeral.token, numeral.isNumberToken, fun rest hrest => ?_⟩
    rw [htext]
    exact numeral.scan?_chars hrest

theorem scan?_token (n : Number) : IsNumberToken n.token ∧
    ∀ rest, Stops rest → scan? (n.text.toList ++ rest) = some (n.token, rest) := by
  obtain ⟨t, ht, hscan⟩ := n.scan?_text
  have htoken : n.token = t := by
    have hend := tokens_scan (hscan [] stops_nil)
    rw [List.append_nil] at hend
    rw [token, hend, List.headD_cons]
  rw [htoken]
  exact ⟨ht, hscan⟩

theorem tokens_text (n : Number) {rest : List Char} (hrest : Stops rest) :
    tokens (n.text.toList ++ rest) = n.token :: tokens rest :=
  tokens_scan (n.scan?_token.2 rest hrest)

end Number

namespace Json

/-! ## Layouts -/

namespace Layout

variable (l : Layout) (level : Nat)

theorem isBlank_lineBreak : ∀ c ∈ (l.lineBreak level).toList, isBlank c = true := by
  cases l with
  | compact => simp [lineBreak]
  | pretty => simp [lineBreak, isBlank]

theorem tokens_lineBreak (rest : List Char) :
    tokens ((l.lineBreak level).toList ++ rest) = tokens rest :=
  tokens_blanks (l.isBlank_lineBreak level) rest

theorem stops_lineBreak {rest : List Char} (h : Stops rest) :
    Stops ((l.lineBreak level).toList ++ rest) := by
  cases l with
  | compact => simpa [lineBreak] using h
  | pretty => simp [lineBreak, Stops]

theorem tokens_colon (rest : List Char) :
    tokens (l.colon.toList ++ rest) = .mark ':' :: tokens rest := by
  cases l with
  | compact => exact tokens_mark rfl rest
  | pretty => exact (tokens_mark rfl _).trans (congrArg _ (tokens_blank rfl rest))

/-- An entry that is not the first one. -/
def entry (text : String) : List Char := ',' :: ((l.lineBreak level).toList ++ text.toList)

theorem toList_intercalate_cons (e : String) (es : List String) :
    (String.intercalate ("," ++ l.lineBreak level) (e :: es)).toList =
      e.toList ++ es.flatMap (l.entry level) := by
  induction es generalizing e with
  | nil => rw [String.intercalate_singleton, List.flatMap_nil, List.append_nil]
  | cons e' es ih =>
    rw [String.intercalate_cons_cons, String.toList_append, String.toList_append, ih,
      String.toList_append, List.flatMap_cons, List.append_assoc, List.append_assoc, entry,
      List.cons_append, List.append_assoc]
    rfl

theorem tokens_block_nil {left right : String} (opening closing : Char)
    (hleft : left.toList = [opening]) (hright : right.toList = [closing])
    (hopen : isMark opening = true) (hclose : isMark closing = true) (rest : List Char) :
    tokens ((l.block level left right []).toList ++ rest) =
      .mark opening :: .mark closing :: tokens rest := by
  rw [block, String.toList_append, hleft, hright, List.append_assoc, List.singleton_append,
    List.singleton_append, tokens_mark hopen, tokens_mark hclose]

theorem tokens_block_cons {left right : String} (opening closing : Char)
    (hleft : left.toList = [opening]) (hright : right.toList = [closing])
    (hopen : isMark opening = true) (e : String) (es : List String) (rest : List Char) :
    tokens ((l.block level left right (e :: es)).toList ++ rest) =
      .mark opening :: tokens (e.toList ++ (es.flatMap (l.entry (level + 1)) ++
        ((l.lineBreak level).toList ++ closing :: rest))) := by
  simp only [block, String.toList_append, toList_intercalate_cons, hleft, hright,
    List.append_assoc, List.singleton_append]
  rw [List.cons_append, tokens_mark hopen, tokens_lineBreak]

theorem tokens_entry (text : String) (rest : List Char) :
    tokens (l.entry level text ++ rest) = .mark ',' :: tokens (text.toList ++ rest) := by
  rw [entry, List.cons_append, List.append_assoc, tokens_mark rfl, tokens_lineBreak]

/-- No number goes on after an entry. -/
theorem stops_entries (es : List String) (right : Char) (hright : isMark right = true)
    (rest : List Char) :
    Stops (es.flatMap (l.entry (level + 1)) ++ ((l.lineBreak level).toList ++ right :: rest)) := by
  cases es with
  | nil => exact l.stops_lineBreak level (stops_mark hright rest)
  | cons e es => exact stops_mark (by decide) _

end Layout

/-! ## Values -/

mutual

/-- The tokens of a value. -/
def tokenized : Json → List Token
  | .null => [.null]
  | .bool b => [.bool b]
  | .num n => [n.token]
  | .str s => [.str s]
  | .arr [] => [.mark '[', .mark ']']
  | .arr (j :: js) => .mark '[' :: (tokenized j ++ tokenizedItems js)
  | .obj [] => [.mark '\x7b', .mark '\x7d']
  | .obj ((key, j) :: fs) =>
    .mark '\x7b' :: .str key :: .mark ':' :: (tokenized j ++ tokenizedFields fs)

/-- The items after the first one, up to the end of the array. -/
def tokenizedItems : List Json → List Token
  | [] => [.mark ']']
  | j :: js => .mark ',' :: (tokenized j ++ tokenizedItems js)

/-- The fields after the first one, up to the end of the object. -/
def tokenizedFields : List (String × Json) → List Token
  | [] => [.mark '\x7d']
  | (key, j) :: fs => .mark ',' :: .str key :: .mark ':' :: (tokenized j ++ tokenizedFields fs)

end

theorem tokens_bool (b : Bool) (rest : List Char) :
    tokens ((if b then "true" else "false").toList ++ rest) = .bool b :: tokens rest := by
  apply tokens_scan
  cases b <;> rfl

theorem tokens_field (l : Layout) (key text : String) (rest : List Char) :
    tokens ((quote key ++ l.colon ++ text).toList ++ rest) =
      .str key :: .mark ':' :: tokens (text.toList ++ rest) := by
  rw [String.toList_append, String.toList_append, List.append_assoc, List.append_assoc,
    tokens_quote, l.tokens_colon]

mutual

/-- However it is laid out, the text of a value consists of the tokens of the value. What follows
must not go on with a number that ends the text. -/
theorem tokens_write (l : Layout) : ∀ (j : Json) (level : Nat) {rest : List Char}, Stops rest →
    tokens ((j.write l level).toList ++ rest) = j.tokenized ++ tokens rest
  | .null, _, _, _ => by
    rw [write]
    exact tokens_scan rfl
  | .bool b, _, rest, _ => tokens_bool b rest
  | .num n, _, _, hrest => n.tokens_text hrest
  | .str s, _, rest, _ => tokens_quote s rest
  | .arr [], level, rest, _ => l.tokens_block_nil level '[' ']' rfl rfl rfl rfl rest
  | .obj [], level, rest, _ => l.tokens_block_nil level '\x7b' '\x7d' rfl rfl rfl rfl rest
  | .arr (j :: js), level, rest, _ => by
    have hstops := l.stops_entries level (writeItems l (level + 1) js) ']' rfl rest
    rw [write, writeItems, l.tokens_block_cons level '[' ']' rfl rfl rfl, tokens_write l j _ hstops,
      tokens_items l js, tokenized, List.cons_append, List.append_assoc]
  | .obj ((key, j) :: fs), level, rest, _ => by
    have hstops := l.stops_entries level (writeFields l (level + 1) fs) '\x7d' rfl rest
    rw [write, writeFields, l.tokens_block_cons level '\x7b' '\x7d' rfl rfl rfl, tokens_field,
      tokens_write l j _ hstops, tokens_fields l fs, tokenized, List.cons_append, List.cons_append,
      List.cons_append, List.append_assoc]

theorem tokens_items (l : Layout) : ∀ (js : List Json) (level : Nat) (rest : List Char),
    tokens ((writeItems l (level + 1) js).flatMap (l.entry (level + 1)) ++
      ((l.lineBreak level).toList ++ ']' :: rest)) = tokenizedItems js ++ tokens rest
  | [], level, rest => (l.tokens_lineBreak level _).trans (tokens_mark rfl rest)
  | j :: js, level, rest => by
    have hstops := l.stops_entries level (writeItems l (level + 1) js) ']' rfl rest
    rw [writeItems, List.flatMap_cons, List.append_assoc, l.tokens_entry,
      tokens_write l j _ hstops, tokens_items l js, tokenizedItems, List.cons_append,
      List.append_assoc]

theorem tokens_fields (l : Layout) : ∀ (fs : List (String × Json)) (level : Nat)
    (rest : List Char),
    tokens ((writeFields l (level + 1) fs).flatMap (l.entry (level + 1)) ++
      ((l.lineBreak level).toList ++ '\x7d' :: rest)) = tokenizedFields fs ++ tokens rest
  | [], level, rest => (l.tokens_lineBreak level _).trans (tokens_mark rfl rest)
  | (key, j) :: fs, level, rest => by
    have hstops := l.stops_entries level (writeFields l (level + 1) fs) '\x7d' rfl rest
    rw [writeFields, List.flatMap_cons, List.append_assoc, l.tokens_entry, tokens_field,
      tokens_write l j _ hstops, tokens_fields l fs, tokenizedFields, List.cons_append,
      List.cons_append, List.cons_append, List.append_assoc]

end

end Json

end AutomataNet
