import AutomataNet.Notice
/-!
Results together with the notices given on the way.

A `Report` is the result of a computation. An `Attempt` is the result of an operation on a state:
on failure it still holds the state left behind, with the changes made so far.
-/

namespace AutomataNet

/-- A result or a failure, and the notices given before it. -/
structure Report (ε α : Type) where
  outcome : Except ε α
  notices : List Notice := []

namespace Report

variable {ε ε' α β : Type}

def ok (a : α) : Report ε α := ⟨.ok a, []⟩

def fail (e : ε) : Report ε α := ⟨.error e, []⟩

def ofExcept (x : Except ε α) : Report ε α := ⟨x, []⟩

def note (n : Notice) : Report ε Unit := ⟨.ok (), [n]⟩

def bind (x : Report ε α) (f : α → Report ε β) : Report ε β :=
  match x.outcome with
  | .ok a =>
    let y := f a
    ⟨y.outcome, x.notices ++ y.notices⟩
  | .error e => ⟨.error e, x.notices⟩

instance : Monad (Report ε) where
  pure := ok
  bind := bind

def mapError (f : ε → ε') (x : Report ε α) : Report ε' α := ⟨x.outcome.mapError f, x.notices⟩

@[simp] theorem outcome_pure (a : α) : (pure a : Report ε α).outcome = .ok a := rfl

@[simp] theorem outcome_ok (a : α) : (ok a : Report ε α).outcome = .ok a := rfl

@[simp] theorem outcome_fail (e : ε) : (fail e : Report ε α).outcome = .error e := rfl

@[simp] theorem outcome_ofExcept (x : Except ε α) : (ofExcept x).outcome = x := rfl

@[simp] theorem outcome_note (n : Notice) : (note n : Report ε Unit).outcome = .ok () := rfl

@[simp] theorem outcome_mapError (f : ε → ε') (x : Report ε α) :
    (x.mapError f).outcome = x.outcome.mapError f := rfl

/-- Notices do not influence the outcome. -/
@[simp] theorem outcome_bind (x : Report ε α) (f : α → Report ε β) :
    (x >>= f).outcome = x.outcome >>= fun a => (f a).outcome := by
  show (bind x f).outcome = _
  unfold bind
  cases x.outcome <;> rfl

@[simp] theorem outcome_map (f : α → β) (x : Report ε α) :
    (f <$> x).outcome = f <$> x.outcome := by
  show (bind x fun a => ok (f a)).outcome = _
  unfold bind
  cases x.outcome <;> rfl

/-- Runs over a list in order, up to the first failure. -/
def mapList (f : α → Report ε β) : List α → Report ε (List β)
  | [] => ok []
  | a :: as => do
    let b ← f a
    let bs ← mapList f as
    return b :: bs

end Report

/-- What an operation leaves behind: a state, a result or a failure, and the notices given. -/
structure Attempt (σ ε α : Type) where
  state : σ
  outcome : Except ε α
  notices : List Notice := []

namespace Attempt

variable {σ τ ε ε' α β : Type}

def ok (s : σ) (a : α) : Attempt σ ε α := ⟨s, .ok a, []⟩

def fail (s : σ) (e : ε) : Attempt σ ε α := ⟨s, .error e, []⟩

/-- Goes on from the state left behind, unless there was a failure. -/
def andThen (x : Attempt σ ε α) (f : σ → α → Attempt σ ε β) : Attempt σ ε β :=
  match x.outcome with
  | .ok a =>
    let y := f x.state a
    ⟨y.state, y.outcome, x.notices ++ y.notices⟩
  | .error e => ⟨x.state, .error e, x.notices⟩

/-- The same attempt seen as one on a larger state. -/
def mapState (f : σ → τ) (x : Attempt σ ε α) : Attempt τ ε α := ⟨f x.state, x.outcome, x.notices⟩

def mapError (f : ε → ε') (x : Attempt σ ε α) : Attempt σ ε' α :=
  ⟨x.state, x.outcome.mapError f, x.notices⟩

def mapResult (f : α → β) (x : Attempt σ ε α) : Attempt σ ε β :=
  ⟨x.state, f <$> x.outcome, x.notices⟩

/-- Gives a notice first. -/
def after (n : Notice) (x : Attempt σ ε α) : Attempt σ ε α := ⟨x.state, x.outcome, n :: x.notices⟩

/-- Gives notices last, unless there was a failure. -/
def noting (f : α → List Notice) (x : Attempt σ ε α) : Attempt σ ε α :=
  match x.outcome with
  | .ok a => ⟨x.state, .ok a, x.notices ++ f a⟩
  | .error e => ⟨x.state, .error e, x.notices⟩

/-- Replaces a value by a computed one, and keeps it if that fails. -/
def replace (f : σ → Report ε σ) (s : σ) : Attempt σ ε Unit :=
  let x := f s
  match x.outcome with
  | .ok s' => ⟨s', .ok (), x.notices⟩
  | .error e => ⟨s, .error e, x.notices⟩

/-- Works on a value that may be absent. -/
def onOption (f : σ → Attempt σ ε Unit) : Option σ → Attempt (Option σ) ε Unit
  | none => ok none ()
  | some s => (f s).mapState some

/-- Works on the items of a list in order; after a failure the remaining ones stay as they are. -/
def onEach (f : σ → Attempt σ ε α) : List σ → Attempt (List σ) ε (List α)
  | [] => ok [] []
  | s :: ss =>
    let x := f s
    match x.outcome with
    | .error e => ⟨x.state :: ss, .error e, x.notices⟩
    | .ok a =>
      let y := onEach f ss
      ⟨x.state :: y.state, (a :: ·) <$> y.outcome, x.notices ++ y.notices⟩

/-- The final state, if there was no failure. -/
def toReport (x : Attempt σ ε α) : Report ε σ := ⟨(fun _ => x.state) <$> x.outcome, x.notices⟩

end Attempt

end AutomataNet
