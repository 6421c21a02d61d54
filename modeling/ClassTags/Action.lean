import ClassTags.Notice

/-!
# Actions

An action works on a state and may fail. What it did to the state and what it reported before it
failed stays.
-/

namespace ClassTags

/-- What an action leaves behind. -/
structure Outcome (σ ε α : Type) where
  state : σ
  notices : List Notice
  result : Except ε α

/-- A computation on a state that reports notices and gives a result or fails. -/
def Action (σ ε α : Type) := σ → Outcome σ ε α

namespace Action

variable {σ τ ε ε' α β : Type}

/-- Does nothing. -/
def done (a : α) : Action σ ε α := fun s => ⟨s, [], .ok a⟩

/-- Goes on with the result, if there is one. -/
def bind (x : Action σ ε α) (f : α → Action σ ε β) : Action σ ε β := fun s =>
  let first := x s
  match first.result with
  | .error e => ⟨first.state, first.notices, .error e⟩
  | .ok a =>
    let second := f a first.state
    ⟨second.state, first.notices ++ second.notices, second.result⟩

instance : Monad (Action σ ε) where
  pure := done
  bind := bind

/-- The state. -/
def state : Action σ ε σ := fun s => ⟨s, [], .ok s⟩

/-- Changes the state. -/
def update (f : σ → σ) : Action σ ε Unit := fun s => ⟨f s, [], .ok ()⟩

/-- Reports a notice. -/
def note (n : Notice) : Action σ ε Unit := fun s => ⟨s, [n], .ok ()⟩

/-- Fails. -/
def fail (e : ε) : Action σ ε α := fun s => ⟨s, [], .error e⟩

/-- A computation that does not touch the state. -/
def ofLogged (cause : ε' → ε) (x : Logged ε' α) : Action σ ε α := fun s =>
  ⟨s, x.notices, x.result.mapError cause⟩

/-- An action on a part of the state. -/
def within (part : σ → τ) (set : σ → τ → σ) (x : Action τ ε α) : Action σ ε α := fun s =>
  let o := x (part s)
  ⟨set s o.state, o.notices, o.result⟩

/-- Runs an action for every element, in order. -/
def forEach (f : α → Action σ ε Unit) : List α → Action σ ε Unit
  | [] => done ()
  | a :: as => bind (f a) fun _ => forEach f as

end Action

end ClassTags
