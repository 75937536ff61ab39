import AutomataNet.Codec.Record
import AutomataNet.Proofs.Outcome
/-!
# What is read of a record

A record is read from the nodes in a container. Whichever form the container has, and whatever order
its fields stand in, the value of each field was read from one of these nodes, or the field is
missing and has its default (`Record.obtained_of_decode`).
-/

namespace AutomataNet

/-- The nodes in a container. -/
inductive Node.Holds : Node → List Node → Prop
  | arr (items : List Node) : Holds (.arr items) items
  | obj (entries : List (Option String × Node)) : Holds (.obj entries) (entries.map (·.2))

theorem Codec.list_eq_ok {α : Type} {c : Codec α} {source : Source} {n : Node} {as : List α}
    (h : (c.list.decode source n).outcome = .ok as) :
    ∃ items, n = .arr items ∧
      List.Forall₂ (fun n a => (c.decode source n).outcome = .ok a) items as := by
  unfold Codec.list at h
  dsimp only at h
  split at h
  · exact ⟨_, rfl, Report.mapList_eq_ok_iff.1 h⟩
  · unfold Codec.mismatch at h
    split at h <;> cases h

/-- A text is read as one node. -/
theorem Codec.decode_of_ofText {α : Type} {c : Codec α} {text : String} {a : α}
    (h : (c.ofText text).outcome = .ok a) :
    (c.decode .text (Node.ofText text).root).outcome = .ok a := by
  rw [Codec.ofText, Report.outcome_bind] at h
  obtain ⟨b, hb, h⟩ := Except.bind_eq_ok_iff.1 h
  split at h
  · contradiction
  · obtain rfl := Except.ok.inj h
    exact hb

/-- The field was read from one of the nodes. -/
def Field.ReadFrom {α : Type} (f : Field α) (source : Source) (nodes : List Node) (a : α) : Prop :=
  ∃ n ∈ nodes, (f.read source n).outcome = .ok a

namespace Fields

variable {ρ σ : Type} {source : Source} {nodes : List Node}

/-- Each field was read from one of the nodes, or has its default. -/
def Obtained (source : Source) (nodes : List Node) : {ρ σ : Type} → Fields ρ σ → ρ → Prop
  | _, _, .nil, _ => True
  | _, _, .cons f rest, (a, as) =>
    (f.ReadFrom source nodes a ∨ f.absent = some a) ∧ rest.Obtained source nodes as

/-- The fields found so far were read from the nodes. -/
def Found (source : Source) (nodes : List Node) : {ρ σ : Type} → Fields ρ σ → σ → Prop
  | _, _, .nil, _ => True
  | _, _, .cons f rest, (slot, slots) =>
    (∀ a ∈ slot, f.ReadFrom source nodes a) ∧ rest.Found source nodes slots

theorem found_vacant (fs : Fields ρ σ) : fs.Found source nodes fs.vacant := by
  induction fs with
  | nil => trivial
  | cons f rest ih =>
    refine ⟨?_, ih⟩
    rintro a ⟨⟩

theorem found_put {key : String} {n : Node} (hn : n ∈ nodes) {fs : Fields ρ σ} {slots slots' : σ}
    (hs : fs.Found source nodes slots) {r : Report DocumentError σ}
    (hput : fs.put source key n slots = some r) (hr : r.outcome = .ok slots') :
    fs.Found source nodes slots' := by
  induction fs with
  | nil => cases hput
  | cons f rest ih =>
    obtain ⟨slot, slots⟩ := slots
    simp only [put] at hput
    split at hput
    · split at hput
      · obtain rfl := Option.some.inj hput
        contradiction
      · obtain rfl := Option.some.inj hput
        rw [Report.outcome_map] at hr
        obtain ⟨a, ha, rfl⟩ := Except.map_eq_ok_iff.1 hr
        refine ⟨?_, hs.2⟩
        rintro _ ⟨⟩
        exact ⟨n, hn, ha⟩
    · obtain ⟨x, hx, rfl⟩ := Option.map_eq_some_iff.1 hput
      rw [Report.outcome_map] at hr
      obtain ⟨y, hy, rfl⟩ := Except.map_eq_ok_iff.1 hr
      exact ⟨hs.1, ih hs.2 hx hy⟩

theorem found_readFields {fs : Fields ρ σ} {entries : List (Option String × Node)}
    (hentries : ∀ p ∈ entries, p.2 ∈ nodes) {slots slots' : σ} (hs : fs.Found source nodes slots)
    (h : (fs.readFields source slots entries).outcome = .ok slots') :
    fs.Found source nodes slots' := by
  induction entries generalizing slots with
  | nil =>
    obtain rfl := Except.ok.inj h
    exact hs
  | cons p entries ih =>
    obtain ⟨key, n⟩ := p
    obtain ⟨hn, hrest⟩ := List.forall_mem_cons.1 hentries
    cases key with
    | none => cases h
    | some key =>
      rw [readFields] at h
      split at h
      · rename_i r hput
        rw [Report.outcome_bind] at h
        obtain ⟨next, hr, h⟩ := Except.bind_eq_ok_iff.1 h
        exact ih hrest (found_put hn hs hput hr) h
      · -- an unknown field is skipped
        split at h
        · exact ih hrest hs h
        · contradiction

theorem obtained_finish {fs : Fields ρ σ} {slots : σ} (hs : fs.Found source nodes slots) {row : ρ}
    (h : fs.finish slots = .ok row) : fs.Obtained source nodes row := by
  induction fs with
  | nil => trivial
  | cons f rest ih =>
    obtain ⟨slot, slots⟩ := slots
    rw [finish] at h
    split at h
    · rename_i a ha
      obtain ⟨as, has, h⟩ := Except.bind_eq_ok_iff.1 h
      obtain rfl := Except.ok.inj h
      refine ⟨?_, ih hs.2 has⟩
      rcases Option.or_eq_some_iff.1 ha with rfl | ⟨-, habsent⟩
      · exact .inl (hs.1 a rfl)
      · exact .inr habsent
    · contradiction

theorem obtained_readItems {whole : String} {fs : Fields ρ σ} {items left : List Node}
    (hitems : ∀ n ∈ items, n ∈ nodes) {index : Nat} {row : ρ}
    (h : (fs.readItems source whole index items).outcome = .ok (row, left)) :
    fs.Obtained source nodes row := by
  induction fs generalizing index items with
  | nil => trivial
  | cons f rest ih =>
    cases items with
    | cons n items =>
      obtain ⟨hn, hitems⟩ := List.forall_mem_cons.1 hitems
      rw [readItems, Report.outcome_bind] at h
      obtain ⟨a, ha, h⟩ := Except.bind_eq_ok_iff.1 h
      rw [Report.outcome_bind] at h
      obtain ⟨⟨as, left'⟩, has, h⟩ := Except.bind_eq_ok_iff.1 h
      cases h
      exact ⟨.inl ⟨n, hn, ha⟩, ih hitems has⟩
    | nil =>
      rw [readItems] at h
      split at h
      · rename_i a habsent
        rw [Report.outcome_bind] at h
        obtain ⟨⟨as, left'⟩, has, h⟩ := Except.bind_eq_ok_iff.1 h
        cases h
        exact ⟨.inr habsent, ih hitems has⟩
      · contradiction

end Fields

theorem Record.obtained_of_decode {α : Type} {record : Record α} {source : Source} {n : Node}
    {a : α} (h : (record.decode source n).outcome = .ok a) :
    ∃ nodes row, n.Holds nodes ∧ record.fields.Obtained source nodes row ∧
      record.ofRow row = a := by
  unfold Record.decode at h
  split at h
  · rename_i entries
    rw [Report.outcome_bind] at h
    obtain ⟨slots, hslots, h⟩ := Except.bind_eq_ok_iff.1 h
    split at h
    · rename_i row hfinish
      have hfound := Fields.found_readFields (fun p hp => List.mem_map_of_mem hp)
        (Fields.found_vacant _) hslots
      exact ⟨_, row, .obj entries, Fields.obtained_finish hfound hfinish, Except.ok.inj h⟩
    · cases h
  · rename_i items
    rw [Report.outcome_bind] at h
    obtain ⟨⟨row, left⟩, hitems, h⟩ := Except.bind_eq_ok_iff.1 h
    dsimp only at h
    split at h
    · exact ⟨items, row, .arr items, Fields.obtained_readItems (fun _ hn => hn) hitems,
        Except.ok.inj h⟩
    · split at h <;> cases h
  · unfold Codec.mismatch at h
    split at h <;> cases h

end AutomataNet
