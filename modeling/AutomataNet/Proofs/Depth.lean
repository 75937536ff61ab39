import AutomataNet.Json.Node
import AutomataNet.Proofs.Printing
/-!
# How deep containers nest

The reader gives up on containers that nest deeper than `Node.maxDepth`. So what it makes of a text
is never deeper (`Node.depth_ofText_le`), and the text of a value shows all of the value if that is
not deeper, and else cannot be read (`Node.ofText_write`).
-/

namespace AutomataNet

/-! ## Depth -/

namespace Json

mutual

/-- How many containers there are around each other. -/
def depth : Json → Nat
  | .arr items => depthItems items + 1
  | .obj fields => depthFields fields + 1
  | _ => 0

def depthItems : List Json → Nat
  | [] => 0
  | j :: js => max (depth j) (depthItems js)

def depthFields : List (String × Json) → Nat
  | [] => 0
  | (_, j) :: fs => max (depth j) (depthFields fs)

end

theorem depthItems_le_iff {items : List Json} {k : Nat} :
    depthItems items ≤ k ↔ ∀ j ∈ items, j.depth ≤ k := by
  induction items with
  | nil => simp [depthItems]
  | cons j js ih => simp [depthItems, ih]

theorem depthFields_le_iff {fields : List (String × Json)} {k : Nat} :
    depthFields fields ≤ k ↔ ∀ p ∈ fields, p.2.depth ≤ k := by
  induction fields with
  | nil => simp [depthFields]
  | cons p fs ih => simp [depthFields, ih]

end Json

namespace Node

mutual

/-- How many containers there are around each other. -/
def depth : Node → Nat
  | .arr items => depthItems items + 1
  | .obj fields => depthFields fields + 1
  | _ => 0

def depthItems : List Node → Nat
  | [] => 0
  | n :: ns => max (depth n) (depthItems ns)

def depthFields : List (Option String × Node) → Nat
  | [] => 0
  | (_, n) :: fs => max (depth n) (depthFields fs)

end

theorem depthItems_le_iff {items : List Node} {k : Nat} :
    depthItems items ≤ k ↔ ∀ n ∈ items, n.depth ≤ k := by
  induction items with
  | nil => simp [depthItems]
  | cons n ns ih => simp [depthItems, ih]

theorem depthFields_le_iff {fields : List (Option String × Node)} {k : Nat} :
    depthFields fields ≤ k ↔ ∀ p ∈ fields, p.2.depth ≤ k := by
  induction fields with
  | nil => simp [depthFields]
  | cons p fs ih => simp [depthFields, ih]

/-! ## The limit of the reader -/

/-- What has been read of an open container. -/
def Frame.entries : Frame → List Node
  | .arr items => items
  | .obj fields _ => fields.map (·.2)

/-- The entries of open containers leave room for the containers around them. Beyond the limit there
is room for none. -/
def Limited : List Frame → Prop
  | [] => True
  | f :: fs => (∀ n ∈ f.entries, n.depth ≤ maxDepth - (fs.length + 1)) ∧ Limited fs

theorem depth_limit_le {outer : Nat} {n : Node} (h : n.depth ≤ maxDepth - (outer + 1) + 1) :
    (Frame.fill.limit outer n).depth ≤ maxDepth - outer := by
  unfold Frame.fill.limit
  split
  · omega
  · exact Nat.zero_le _

theorem depth_fill_le {outer : Nat} {entry : Node} {f : Frame}
    (hentry : entry.depth ≤ maxDepth - (outer + 1))
    (hf : ∀ n ∈ f.entries, n.depth ≤ maxDepth - (outer + 1)) :
    (f.fill outer entry).depth ≤ maxDepth - outer := by
  cases f with
  | arr items =>
    apply depth_limit_le
    simp only [depth, add_le_add_iff_right, depthItems_le_iff, List.mem_reverse]
    exact List.forall_mem_cons.2 ⟨hentry, hf⟩
  | obj fields key =>
    apply depth_limit_le
    simp only [depth, add_le_add_iff_right, depthFields_le_iff, List.mem_reverse]
    exact List.forall_mem_cons.2 ⟨hentry, fun p hp => hf p.2 (List.mem_map_of_mem hp)⟩

theorem depth_closeAll_le {stack : List Frame} (h : Limited stack) {entry : Node}
    (hentry : entry.depth ≤ maxDepth - stack.length) : (closeAll entry stack).depth ≤ maxDepth := by
  induction stack generalizing entry with
  | nil => exact hentry
  | cons f fs ih => exact ih h.2 (depth_fill_le hentry h.1)

theorem depth_breakOff_le {stack : List Frame} (h : Limited stack) :
    (breakOff stack).root.depth ≤ maxDepth :=
  depth_closeAll_le h (Nat.zero_le _)

theorem depth_emptyContainer_le {n : Node} (h : n.depth ≤ 1) (outer : Nat) :
    (emptyContainer outer n).depth ≤ maxDepth - outer := by
  unfold emptyContainer
  split
  · omega
  · exact Nat.zero_le _

theorem limited_arr {items : List Node} {value : Node} {stack : List Frame}
    (h : Limited (.arr items :: stack)) (hv : value.depth ≤ maxDepth - (stack.length + 1)) :
    Limited (.arr (value :: items) :: stack) :=
  ⟨List.forall_mem_cons.2 ⟨hv, h.1⟩, h.2⟩

theorem limited_obj {fields : List (Option String × Node)} {key : Option String} {value : Node}
    {stack : List Frame} (h : Limited (.obj fields key :: stack))
    (hv : value.depth ≤ maxDepth - (stack.length + 1)) (key' : Option String) :
    Limited (.obj ((key, value) :: fields) key' :: stack) :=
  ⟨List.forall_mem_cons.2 ⟨hv, h.1⟩, h.2⟩

mutual

theorem depth_readValue_le {stack : List Frame} (h : Limited stack) (tokens : List Json.Token) :
    (readValue stack tokens).root.depth ≤ maxDepth := by
  unfold readValue
  split
  case h_1 | h_8 | h_13 => exact depth_breakOff_le h
  case h_2 | h_3 | h_4 | h_5 | h_6 | h_7 => exact depth_readAfter_le h (Nat.zero_le _) _
  case h_9 | h_11 =>
    refine depth_readAfter_le h (depth_emptyContainer_le ?_ _) _
    simp [depth, depthItems, depthFields]
  case h_10 =>
    have hopen : Limited (.arr [] :: stack) := ⟨List.forall_mem_nil _, h⟩
    exact depth_readValue_le hopen _
  case h_12 => exact depth_readField_le (List.forall_mem_nil _) h _
termination_by tokens.length
decreasing_by all_goals (subst_vars; simp)

theorem depth_readField_le {fields : List (Option String × Node)} {stack : List Frame}
    (hf : ∀ p ∈ fields, p.2.depth ≤ maxDepth - (stack.length + 1)) (h : Limited stack)
    (tokens : List Json.Token) : (readField fields stack tokens).root.depth ≤ maxDepth := by
  have hframe : ∀ key, Limited (.obj fields key :: stack) := fun key =>
    ⟨List.forall_mem_map.2 hf, h⟩
  unfold readField
  split
  · exact depth_readValue_le (hframe _) _
  · exact depth_readValue_le (hframe _) _
  · exact depth_breakOff_le (hframe _)
  · exact depth_breakOff_le (hframe _)
termination_by tokens.length
decreasing_by all_goals (subst_vars; simp)

theorem depth_readAfter_le {stack : List Frame} (h : Limited stack) {value : Node}
    (hv : value.depth ≤ maxDepth - stack.length) (tokens : List Json.Token) :
    (readAfter value stack tokens).root.depth ≤ maxDepth := by
  unfold readAfter
  split
  · exact hv
  · exact depth_readValue_le (limited_arr h hv) _
  · exact depth_readAfter_le h.2 (depth_fill_le hv h.1) _
  · exact depth_breakOff_le (limited_arr h hv)
  · exact depth_readField_le (List.forall_mem_cons.2 ⟨hv, List.forall_mem_map.1 h.1⟩) h.2 _
  · exact depth_readAfter_le h.2 (depth_fill_le hv h.1) _
  · exact depth_breakOff_le (limited_obj h hv none)
termination_by tokens.length
decreasing_by all_goals (subst_vars; simp)

end

theorem depth_ofText_le (text : String) : (ofText text).root.depth ≤ maxDepth :=
  depth_readValue_le (show Limited [] from trivial) _

end Node

/-! ## Reading the text of a value -/

namespace Json

mutual

/-- A value as its text shows it: each number is what its own text is read as. -/
def reread : Json → Node
  | .null => .null
  | .bool b => .bool b
  | .num n => (Node.ofText n.text).root
  | .str s => .str s
  | .arr items => .arr (rereadItems items)
  | .obj fields => .obj (rereadFields fields)

def rereadItems : List Json → List Node
  | [] => []
  | j :: js => reread j :: rereadItems js

def rereadFields : List (String × Json) → List (Option String × Node)
  | [] => []
  | (key, j) :: fs => (some key, reread j) :: rereadFields fs

end

theorem tokenized_append_ne (j : Json) (rest tokens : List Token) :
    j.tokenized ++ rest ≠ .mark ']' :: tokens := by
  unfold tokenized
  split
  case h_3 n =>
    have htoken := n.scan?_token.1
    generalize n.token = t at htoken
    cases htoken <;> simp
  all_goals simp

end Json

namespace Node

/-- What is got where something of some depth is expected: the thing itself if there is room for it,
or else something that is not readable. -/
structure Shows {α : Type} (readable : α → Bool) (room depth : Nat) (expected got : α) : Prop where
  shallow : depth ≤ room → got = expected
  deep : room < depth → readable got = false

/-- A value, under some open containers. -/
def ShowsValue (outer : Nat) (j : Json) : Node → Prop :=
  Shows readable (maxDepth - outer) j.depth j.reread

def ShowsItems (outer : Nat) (js : List Json) : List Node → Prop :=
  Shows readableItems (maxDepth - outer) (Json.depthItems js) (Json.rereadItems js)

def ShowsFields (outer : Nat) (fs : List (String × Json)) : List (Option String × Node) → Prop :=
  Shows readableFields (maxDepth - outer) (Json.depthFields fs) (Json.rereadFields fs)

theorem showsItems_cons {outer : Nat} {j : Json} {js : List Json} {n : Node} {ns : List Node}
    (hn : ShowsValue outer j n) (hns : ShowsItems outer js ns) :
    ShowsItems outer (j :: js) (n :: ns) where
  shallow h := by
    obtain ⟨hj, hjs⟩ := max_le_iff.1 h
    rw [hn.shallow hj, hns.shallow hjs, Json.rereadItems]
  deep h := by
    rw [readableItems, Bool.and_eq_false_iff]
    exact (lt_max_iff.1 h).imp hn.deep hns.deep

theorem showsFields_cons {outer : Nat} {j : Json} {fs : List (String × Json)} {n : Node}
    {ns : List (Option String × Node)} (hn : ShowsValue outer j n) (hns : ShowsFields outer fs ns)
    (key : String) : ShowsFields outer ((key, j) :: fs) ((some key, n) :: ns) where
  shallow h := by
    obtain ⟨hj, hfs⟩ := max_le_iff.1 h
    rw [hn.shallow hj, hns.shallow hfs, Json.rereadFields]
  deep h := by
    rw [readableFields, Option.isSome_some, Bool.true_and, Bool.and_eq_false_iff]
    exact (lt_max_iff.1 h).imp hn.deep hns.deep

/-- A container takes up one level, and beyond the limit it cannot be read itself. -/
theorem Shows.limit {α : Type} {readable : α → Bool} {outer depth : Nat} {expected got : α}
    {wrap : α → Node} (hwrap : ∀ x, (wrap x).readable = readable x)
    (h : Shows readable (maxDepth - (outer + 1)) depth expected got) :
    Shows Node.readable (maxDepth - outer) (depth + 1) (wrap expected)
      (Frame.fill.limit outer (wrap got)) where
  shallow hd := by
    rw [Frame.fill.limit, if_pos (by omega), h.shallow (by omega)]
  deep hd := by
    unfold Frame.fill.limit
    split
    · rw [hwrap]
      exact h.deep (by omega)
    · rfl

theorem shows_arr {outer : Nat} {js : List Json} {ns : List Node}
    (h : ShowsItems (outer + 1) js ns) :
    ShowsValue outer (.arr js) (Frame.fill.limit outer (.arr ns)) := by
  have hwrap : ∀ x, (Node.arr x).readable = readableItems x := fun _ => rfl
  exact Shows.limit hwrap h

theorem shows_obj {outer : Nat} {fs : List (String × Json)} {ns : List (Option String × Node)}
    (h : ShowsFields (outer + 1) fs ns) :
    ShowsValue outer (.obj fs) (Frame.fill.limit outer (.obj ns)) := by
  have hwrap : ∀ x, (Node.obj x).readable = readableFields x := fun _ => rfl
  exact Shows.limit hwrap h

theorem shows_scalar {j : Json} (h : j.depth = 0) (outer : Nat) :
    ShowsValue outer j j.reread where
  shallow _ := rfl
  deep hd := by omega

theorem showsItems_nil (outer : Nat) : ShowsItems outer [] [] where
  shallow _ := rfl
  deep h := absurd h (Nat.not_lt_zero _)

theorem showsFields_nil (outer : Nat) : ShowsFields outer [] [] where
  shallow _ := rfl
  deep h := absurd h (Nat.not_lt_zero _)

theorem readValue_arr {stack : List Frame} {tokens : List Json.Token}
    (h : ∀ rest, tokens ≠ .mark ']' :: rest) :
    readValue stack (.mark '[' :: tokens) = readValue (.arr [] :: stack) tokens := by
  rw [readValue]
  exact h

theorem readValue_number (n : Number) (stack : List Frame) (rest : List Json.Token) :
    readValue stack (n.token :: rest) = readAfter (ofText n.text).root stack rest := by
  have htokens : Json.tokens n.text.toList = [n.token] := by
    simpa [Json.tokens_nil] using n.tokens_text Json.stops_nil
  have htoken := n.scan?_token.1
  rw [ofText, htokens]
  generalize n.token = t at htoken
  cases htoken <;> rfl

mutual

/-- After the tokens of a value the reader goes on with what they show. -/
theorem readValue_tokenized : ∀ (j : Json) (stack : List Frame) (rest : List Json.Token),
    ∃ n, ShowsValue stack.length j n ∧
      readValue stack (j.tokenized ++ rest) = readAfter n stack rest
  | .null, _, _ => ⟨_, shows_scalar rfl _, rfl⟩
  | .bool _, _, _ => ⟨_, shows_scalar rfl _, rfl⟩
  | .num n, stack, rest => ⟨_, shows_scalar rfl _, readValue_number n stack rest⟩
  | .str _, _, _ => ⟨_, shows_scalar rfl _, rfl⟩
  | .arr [], stack, _ => ⟨_, shows_arr (showsItems_nil (stack.length + 1)), rfl⟩
  | .obj [], stack, _ => ⟨_, shows_obj (showsFields_nil (stack.length + 1)), rfl⟩
  | .arr (j :: js), stack, rest => by
    obtain ⟨n, hn, hj⟩ :=
      readValue_tokenized j (.arr [] :: stack) (Json.tokenizedItems js ++ rest)
    obtain ⟨ns, hns, hjs⟩ := readAfter_tokenizedItems js n [] stack rest
    refine ⟨_, shows_arr (showsItems_cons hn hns), ?_⟩
    rw [Json.tokenized, List.cons_append, List.append_assoc,
      readValue_arr (j.tokenized_append_ne _), hj, hjs]
    rfl
  | .obj ((key, j) :: fs), stack, rest => by
    obtain ⟨n, hn, hj⟩ :=
      readValue_tokenized j (.obj [] (some key) :: stack) (Json.tokenizedFields fs ++ rest)
    obtain ⟨ns, hns, hfs⟩ := readAfter_tokenizedFields fs n [] key stack rest
    refine ⟨_, shows_obj (showsFields_cons hn hns key), ?_⟩
    rw [Json.tokenized, List.cons_append, List.cons_append, List.cons_append, List.append_assoc]
    exact hj.trans hfs

theorem readAfter_tokenizedItems : ∀ (js : List Json) (value : Node) (items : List Node)
    (stack : List Frame) (rest : List Json.Token),
    ∃ ns, ShowsItems (stack.length + 1) js ns ∧
      readAfter value (.arr items :: stack) (Json.tokenizedItems js ++ rest) =
        readAfter (Frame.fill.limit stack.length (.arr (items.reverse ++ value :: ns))) stack rest
  | [], value, items, stack, rest => by
    refine ⟨[], showsItems_nil _, ?_⟩
    rw [← List.reverse_cons]
    rfl
  | j :: js, value, items, stack, rest => by
    obtain ⟨n, hn, hj⟩ :=
      readValue_tokenized j (.arr (value :: items) :: stack) (Json.tokenizedItems js ++ rest)
    obtain ⟨ns, hns, hjs⟩ := readAfter_tokenizedItems js n (value :: items) stack rest
    refine ⟨n :: ns, showsItems_cons hn hns, ?_⟩
    rw [Json.tokenizedItems, List.cons_append, List.append_assoc]
    rw [List.reverse_cons, List.append_assoc, List.singleton_append] at hjs
    exact hj.trans hjs

theorem readAfter_tokenizedFields : ∀ (fs : List (String × Json)) (value : Node)
    (fields : List (Option String × Node)) (key : String) (stack : List Frame)
    (rest : List Json.Token),
    ∃ ns, ShowsFields (stack.length + 1) fs ns ∧
      readAfter value (.obj fields (some key) :: stack) (Json.tokenizedFields fs ++ rest) =
        readAfter (Frame.fill.limit stack.length (.obj (fields.reverse ++ (some key, value) :: ns)))
          stack rest
  | [], value, fields, key, stack, rest => by
    refine ⟨[], showsFields_nil _, ?_⟩
    rw [← List.reverse_cons]
    rfl
  | (key', j) :: fs, value, fields, key, stack, rest => by
    obtain ⟨n, hn, hj⟩ := readValue_tokenized j
      (.obj ((some key, value) :: fields) (some key') :: stack) (Json.tokenizedFields fs ++ rest)
    obtain ⟨ns, hns, hfs⟩ :=
      readAfter_tokenizedFields fs n ((some key, value) :: fields) key' stack rest
    refine ⟨(some key', n) :: ns, showsFields_cons hn hns key', ?_⟩
    rw [Json.tokenizedFields, List.cons_append, List.cons_append, List.cons_append,
      List.append_assoc]
    rw [List.reverse_cons, List.append_assoc, List.singleton_append] at hfs
    exact hj.trans hfs

end

/-- The text of a value, with some blanks after it, shows the value unless it is too deep, and then
it cannot be read. -/
theorem ofText_write (j : Json) (l : Json.Layout) {blanks : String}
    (hblanks : ∀ c ∈ blanks.toList, Json.isBlank c = true) :
    (ofText (j.write l 0 ++ blanks)).trailing = false ∧
      ShowsValue 0 j (ofText (j.write l 0 ++ blanks)).root := by
  have hend : Json.tokens blanks.toList = [] := by
    rw [← List.append_nil blanks.toList, Json.tokens_blanks hblanks, Json.tokens_nil]
  have htokens : Json.tokens (j.write l 0 ++ blanks).toList = j.tokenized ++ [] := by
    rw [String.toList_append, Json.tokens_write l j 0 (Json.stops_blanks hblanks), hend]
  obtain ⟨n, hn, hread⟩ := readValue_tokenized j [] []
  rw [ofText, htokens, hread]
  exact ⟨rfl, hn⟩

end Node

end AutomataNet
