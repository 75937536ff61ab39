import AutomataNet.Event
import Mathlib
/-!
# The event table

Sending and receiving are recorded alike, so they are treated as two roles of the same kind. The
table is kept sorted, which makes it a function of who takes part in what: `Sorted.ext` says so, and
`takes_recordLabels` says what recording adds. The order of recording cannot show.
-/

namespace AutomataNet

/-! ## Labels -/

theorem stripSuffix?_eq_some_iff {suffix label event : String} :
    stripSuffix? suffix label = some event ↔ label = event ++ suffix := by
  simp only [stripSuffix?]
  constructor
  · intro h
    split at h
    · rename_i hs
      have hparts := List.take_append_drop (label.toList.length - suffix.toList.length) label.toList
      rw [hs] at hparts
      rw [← String.toList_inj, String.toList_append, ← Option.some.inj h, String.toList_ofList,
        hparts]
    · contradiction
  · rintro rfl
    simp

/-- The two ways to take part in an event. -/
inductive Role where
  | sender
  | receiver
deriving DecidableEq

/-- The label of edges that take part in an event in the given role. -/
def Role.label : Role → String → String
  | .sender => sendLabel
  | .receiver => receiveLabel

theorem sentEvent?_eq_some_iff {label event : String} :
    sentEvent? label = some event ↔ label = Role.sender.label event := stripSuffix?_eq_some_iff

theorem receivedEvent?_eq_some_iff {label event : String} :
    receivedEvent? label = some event ↔ label = Role.receiver.label event :=
  stripSuffix?_eq_some_iff

theorem sendLabel_ne_receiveLabel (event other : String) :
    sendLabel event ≠ receiveLabel other := by
  -- the last letters differ
  intro h
  have hlast := congrArg (fun s => s.toList.getLast?) h
  simp [sendLabel, receiveLabel, sendSuffix, receiveSuffix] at hlast

/-- A label tells both the role and the event. -/
theorem Role.label_inj {role role' : Role} {event event' : String} :
    role.label event = role'.label event' ↔ role = role' ∧ event = event' := by
  constructor
  · intro h
    cases role with
    | sender =>
      cases role' with
      | sender =>
        have he := sentEvent?_eq_some_iff.2 h
        rw [sentEvent?_eq_some_iff.2 rfl] at he
        exact ⟨rfl, Option.some.inj he⟩
      | receiver => exact absurd h (sendLabel_ne_receiveLabel event event')
    | receiver =>
      cases role' with
      | sender => exact absurd h.symm (sendLabel_ne_receiveLabel event' event)
      | receiver =>
        have he := receivedEvent?_eq_some_iff.2 h
        rw [receivedEvent?_eq_some_iff.2 rfl] at he
        exact ⟨rfl, Option.some.inj he⟩
  · rintro ⟨rfl, rfl⟩
    rfl

/-! ## Sets of names -/

theorem mem_insertName {name n : String} {ns : List String} :
    n ∈ insertName name ns ↔ n = name ∨ n ∈ ns := by
  induction ns with
  | nil => simp [insertName]
  | cons m ns ih =>
    unfold insertName
    split
    · rw [List.mem_cons]
    · split
      · rename_i hm
        simp [hm]
      · rw [List.mem_cons, ih, List.mem_cons]
        exact or_left_comm

theorem sortedLT_insertName (name : String) {ns : List String} (h : ns.SortedLT) :
    (insertName name ns).SortedLT := by
  rw [List.sortedLT_iff_pairwise] at h ⊢
  induction ns with
  | nil => exact List.pairwise_singleton _ _
  | cons m ns ih =>
    obtain ⟨hm, hns⟩ := List.pairwise_cons.1 h
    unfold insertName
    split
    · rename_i hlt
      refine List.pairwise_cons.2 ⟨?_, h⟩
      intro n hn
      rcases List.mem_cons.1 hn with rfl | hn
      · exact hlt
      · exact hlt.trans (hm n hn)
    · rename_i hnlt
      split
      · exact h
      · rename_i hne
        refine List.pairwise_cons.2 ⟨?_, ih hns⟩
        intro n hn
        rcases mem_insertName.1 hn with rfl | hn
        · exact lt_of_le_of_ne (not_lt.1 hnlt) (Ne.symm hne)
        · exact hm n hn

/-! ## Entries -/

namespace EventEntry

/-- Those who take part in the event in the given role. -/
def members (x : EventEntry) : Role → List String
  | .sender => x.senders
  | .receiver => x.receivers

/-- Adds someone who takes part. -/
def join (role : Role) (automaton : String) (x : EventEntry) : EventEntry :=
  match role with
  | .sender => { x with senders := insertName automaton x.senders }
  | .receiver => { x with receivers := insertName automaton x.receivers }

@[simp] theorem event_join (role : Role) (automaton : String) (x : EventEntry) :
    (x.join role automaton).event = x.event := by
  cases role <;> rfl

theorem members_join (role : Role) (automaton : String) (x : EventEntry) (r : Role) :
    (x.join role automaton).members r =
      if r = role then insertName automaton (x.members r) else x.members r := by
  cases role <;> cases r <;> rfl

@[simp] theorem members_new (event : String) (role : Role) :
    ({ event } : EventEntry).members role = [] := by
  cases role <;> rfl

theorem ext_members {x y : EventEntry} (he : x.event = y.event)
    (hm : ∀ role, x.members role = y.members role) : x = y := by
  have hs := hm .sender
  have hr := hm .receiver
  cases x
  cases y
  simp_all [members]

end EventEntry

namespace EventTable

section changeEntry

variable {event : String} {f : EventEntry → EventEntry} {es : List EventEntry}

theorem map_event_changeEntry (hf : ∀ x, (f x).event = x.event) :
    (changeEntry event f es).map (·.event) = insertName event (es.map (·.event)) := by
  induction es with
  | nil => simp [changeEntry, insertName, hf]
  | cons e es ih =>
    rw [List.map_cons, changeEntry, insertName]
    split
    · simp [hf]
    · split
      · simp [hf]
      · simp [ih]

/-- Changing an entry adds what the change adds to it. -/
theorem exists_mem_changeEntry {P : EventEntry → Prop} {R : Prop} (hnew : ¬P { event })
    (hf : ∀ x, x.event = event → (P (f x) ↔ P x ∨ R)) :
    (∃ x ∈ changeEntry event f es, P x) ↔ (∃ x ∈ es, P x) ∨ R := by
  induction es with
  | nil => simp [changeEntry, hf, hnew]
  | cons e es ih =>
    unfold changeEntry
    split
    · simp only [List.exists_mem_cons_iff, hf { event } rfl, hnew, false_or]
      exact or_comm
    · split
      · rename_i he
        simp only [List.exists_mem_cons_iff, hf e he.symm]
        exact or_right_comm
      · simp only [List.exists_mem_cons_iff, ih, or_assoc]

theorem forall_mem_changeEntry {P : EventEntry → Prop} (h : ∀ x ∈ es, P x) (hnew : P (f { event }))
    (hf : ∀ x, P x → P (f x)) : ∀ x ∈ changeEntry event f es, P x := by
  induction es with
  | nil => simpa [changeEntry] using hnew
  | cons e es ih =>
    obtain ⟨he, hes⟩ := List.forall_mem_cons.1 h
    unfold changeEntry
    split
    · exact List.forall_mem_cons.2 ⟨hnew, h⟩
    · split
      · exact List.forall_mem_cons.2 ⟨hf e he, hes⟩
      · exact List.forall_mem_cons.2 ⟨he, ih hes⟩

end changeEntry

/-! ## Who takes part -/

/-- The automaton takes part in the event in the given role. -/
def Takes (t : EventTable) (role : Role) (event automaton : String) : Prop :=
  ∃ x ∈ t.entries, x.event = event ∧ automaton ∈ x.members role

/-- Every event stands once, in alphabetical order, and so do those who take part in it; there is
someone who does. -/
structure Sorted (t : EventTable) : Prop where
  events : (t.entries.map (·.event)).SortedLT
  members : ∀ x ∈ t.entries, ∀ role, (x.members role).SortedLT
  exchanged : ∀ x ∈ t.entries, ∃ role, x.members role ≠ []

theorem sorted_empty : ({} : EventTable).Sorted where
  events := by simp [List.sortedLT_iff_pairwise]
  members := by simp
  exchanged := by simp

namespace Sorted

variable {t t' : EventTable}

/-- An event has only one entry. -/
theorem entry_unique (h : t.Sorted) {x y : EventEntry} (hx : x ∈ t.entries) (hy : y ∈ t.entries)
    (he : x.event = y.event) : x = y :=
  List.inj_on_of_nodup_map h.events.nodup hx hy he

theorem mem_members_iff (h : t.Sorted) {x : EventEntry} (hx : x ∈ t.entries) {role : Role}
    {automaton : String} : automaton ∈ x.members role ↔ t.Takes role x.event automaton := by
  constructor
  · intro ha
    exact ⟨x, hx, rfl, ha⟩
  · rintro ⟨y, hy, he, ha⟩
    rwa [h.entry_unique hx hy he.symm]

/-- An entry of one table is also in the other, if they agree on who takes part. -/
theorem entries_subset (h : t.Sorted) (h' : t'.Sorted)
    (ht : ∀ role event automaton, t.Takes role event automaton ↔ t'.Takes role event automaton)
    {x : EventEntry} (hx : x ∈ t.entries) : x ∈ t'.entries := by
  -- someone takes part in the event, so the other table has an entry for it
  obtain ⟨role, hne⟩ := h.exchanged x hx
  obtain ⟨a, ha⟩ := List.exists_mem_of_ne_nil _ hne
  obtain ⟨y, hy, he, -⟩ := (ht role x.event a).1 ⟨x, hx, rfl, ha⟩
  have hm : ∀ role, x.members role = y.members role := by
    intro role
    refine (h.members x hx role).eq_of_mem_iff (h'.members y hy role) fun a => ?_
    rw [h.mem_members_iff hx, h'.mem_members_iff hy, ht, he]
  rwa [EventEntry.ext_members he.symm hm]

/-- A sorted table is determined by who takes part. -/
theorem ext (h : t.Sorted) (h' : t'.Sorted)
    (ht : ∀ role event automaton, t.Takes role event automaton ↔ t'.Takes role event automaton) :
    t = t' := by
  have hmem : ∀ x, x ∈ t.entries ↔ x ∈ t'.entries := fun x =>
    ⟨h.entries_subset h' ht, h'.entries_subset h fun r e a => (ht r e a).symm⟩
  have hperm : t.entries.Perm t'.entries :=
    (List.perm_ext_iff_of_nodup h.events.nodup.of_map h'.events.nodup.of_map).2 hmem
  have heq : t.entries = t'.entries :=
    hperm.eq_of_pairwise (fun x y _ _ hxy hyx => absurd (lt_trans hxy hyx) (lt_irrefl x.event))
      (List.pairwise_map.1 h.events.pairwise) (List.pairwise_map.1 h'.events.pairwise)
  cases t
  cases t'
  exact congrArg _ heq

end Sorted

/-! ## Recording labels -/

/-- Records that an automaton takes part. -/
def enter (role : Role) (event automaton : String) (t : EventTable) : EventTable :=
  ⟨changeEntry event (·.join role automaton) t.entries⟩

variable {t : EventTable}

theorem takes_enter {role r : Role} {event automaton e a : String} :
    (t.enter role event automaton).Takes r e a ↔
      t.Takes r e a ∨ (r = role ∧ e = event ∧ a = automaton) := by
  refine exists_mem_changeEntry (by simp) ?_
  rintro x rfl
  rw [EventEntry.event_join, EventEntry.members_join]
  split
  · rw [mem_insertName]
    grind
  · grind

theorem Sorted.enter (h : t.Sorted) (role : Role) (event automaton : String) :
    (t.enter role event automaton).Sorted where
  events := by
    rw [EventTable.enter, map_event_changeEntry fun x => x.event_join role automaton]
    exact sortedLT_insertName event h.events
  members := by
    have hjoin : ∀ x : EventEntry, (∀ r, (x.members r).SortedLT) →
        ∀ r, ((x.join role automaton).members r).SortedLT := by
      intro x hx r
      rw [EventEntry.members_join]
      split
      · exact sortedLT_insertName automaton (hx r)
      · exact hx r
    refine forall_mem_changeEntry h.members (hjoin _ ?_) hjoin
    simp [List.sortedLT_iff_pairwise]
  exchanged := by
    have hjoin : ∀ x : EventEntry, (x.join role automaton).members role ≠ [] := by
      intro x
      rw [EventEntry.members_join, if_pos rfl]
      exact List.ne_nil_of_mem (mem_insertName.2 (.inl rfl))
    exact forall_mem_changeEntry h.exchanged ⟨role, hjoin _⟩ fun x _ => ⟨role, hjoin x⟩

/-- A label of an event is recorded, any other is not. -/
theorem recordLabel_cases (automaton label : String) (t : EventTable) :
    (∃ (role : Role) (event : String), label = role.label event ∧
      (t.recordLabel automaton label).1 = t.enter role event automaton) ∨
    ((∀ (role : Role) (event : String), label ≠ role.label event) ∧
      (t.recordLabel automaton label).1 = t) := by
  unfold recordLabel
  cases hs : sentEvent? label with
  | some event => exact .inl ⟨.sender, event, sentEvent?_eq_some_iff.1 hs, rfl⟩
  | none =>
    cases hr : receivedEvent? label with
    | some event => exact .inl ⟨.receiver, event, receivedEvent?_eq_some_iff.1 hr, rfl⟩
    | none =>
      refine .inr ⟨?_, rfl⟩
      intro role event hl
      cases role with
      | sender => simp [sentEvent?_eq_some_iff.2 hl] at hs
      | receiver => simp [receivedEvent?_eq_some_iff.2 hl] at hr

theorem takes_recordLabel {automaton label : String} {role : Role} {event a : String} :
    (t.recordLabel automaton label).1.Takes role event a ↔
      t.Takes role event a ∨ (a = automaton ∧ label = role.label event) := by
  rcases recordLabel_cases automaton label t with ⟨r, e, rfl, ht⟩ | ⟨hl, ht⟩
  · rw [ht, takes_enter, Role.label_inj]
    grind
  · rw [ht]
    simp [hl]

theorem Sorted.recordLabel (h : t.Sorted) (automaton label : String) :
    (t.recordLabel automaton label).1.Sorted := by
  rcases recordLabel_cases automaton label t with ⟨r, e, -, ht⟩ | ⟨-, ht⟩
  · rw [ht]
    exact h.enter r e automaton
  · rwa [ht]

theorem takes_recordLabels {automaton : String} {labels : List String} {role : Role}
    {event a : String} :
    (t.recordLabels automaton labels).1.Takes role event a ↔
      t.Takes role event a ∨ (a = automaton ∧ role.label event ∈ labels) := by
  induction labels generalizing t with
  | nil => simp [recordLabels]
  | cons label labels ih =>
    rw [recordLabels, ih, takes_recordLabel, List.mem_cons]
    grind

theorem Sorted.recordLabels (h : t.Sorted) (automaton : String) (labels : List String) :
    (t.recordLabels automaton labels).1.Sorted := by
  induction labels generalizing t with
  | nil => exact h
  | cons label labels ih => exact ih (h.recordLabel automaton label)

end EventTable

end AutomataNet
