/-
  LineShell.Action.Basic

  Actions: what the shell does, with everything that can be observed of it.

  An action reads a fixed host and works on a state.  Running it gives an
  outcome, the state it leaves and the events it caused.  A failure keeps the
  state and the events up to it, so what has been done is never undone, and the
  events of an action followed by another are those of the first followed by
  those of the second.
-/

import LineShell.Machine.Basic

namespace LineShell

/-- What running an action gives. -/
structure Result (σ α : Type) where
  outcome : Except Failure α
  state : σ
  events : List Event

namespace Result

variable {σ τ α β : Type}

/-- The result with earlier events put before its own. -/
def after (earlier : List Event) (r : Result σ α) : Result σ α :=
  { r with events := earlier ++ r.events }

/-- Goes on from a value; a failure stays what it is. -/
def andThen (r : Result σ α) (next : α → σ → Result σ β) : Result σ β :=
  match r.outcome with
  | .ok a => (next a r.state).after r.events
  | .error f => ⟨.error f, r.state, r.events⟩

/-- The result seen in another state. -/
def mapState (r : Result σ α) (f : σ → τ) : Result τ α :=
  ⟨r.outcome, f r.state, r.events⟩

end Result

/-- A computation on a state of type `σ` that gives a value of type `α`. -/
def Action (σ α : Type) : Type := Host → σ → Result σ α

namespace Action

variable {σ τ α β : Type}

instance : Monad (Action σ) where
  pure a := fun _ s => ⟨.ok a, s, []⟩
  bind x next := fun host s => (x host s).andThen fun a s' => next a host s'

/-! ## Elementary actions -/

/-- Ends with a failure. -/
def fail (f : Failure) : Action σ α := fun _ s => ⟨.error f, s, []⟩

/-- Causes one event. -/
def emit (e : Event) : Action σ Unit := fun _ s => ⟨.ok (), s, [e]⟩

/-- The host. -/
def host : Action σ Host := fun host s => ⟨.ok host, s, []⟩

/-- The state. -/
def get : Action σ σ := fun _ s => ⟨.ok s, s, []⟩

/-- Changes the state. -/
def modify (f : σ → σ) : Action σ Unit := fun _ s => ⟨.ok (), f s, []⟩

/-- Ends as the given outcome says. -/
def ofExcept : Except Failure α → Action σ α
  | .ok a => pure a
  | .error f => fail f

/-- Writes one line of diagnostics. -/
def log (source : LogSource) (message : String) : Action σ Unit :=
  emit (.log source message)

/-! ## Failures and what is done about them -/

/-- Runs an action and gives its outcome as a value. -/
def attempt (x : Action σ α) : Action σ (Except Failure α) := fun host s =>
  let r := x host s
  ⟨.ok r.outcome, r.state, r.events⟩

/-- Runs an action, then the other one whatever came of the first.  A failure of
    the second takes the place of what came of the first. -/
def ensuring (x : Action σ α) (cleanup : Action σ Unit) : Action σ α := do
  let outcome ← x.attempt
  cleanup
  ofExcept outcome

/-- Runs an action, and the other one where the first failed.  The failure of
    the first stays, unless the second fails too. -/
def onFailure (x : Action σ α) (cleanup : Action σ Unit) : Action σ α := do
  match ← x.attempt with
  | .ok a => pure a
  | .error f =>
    cleanup
    fail f

/-- Runs an action and puts another failure in the place of one. -/
def mapFailure (x : Action σ α) (change : Failure → Failure) : Action σ α := fun host s =>
  let r := x host s
  { r with outcome := r.outcome.mapError change }

/-! ## Parts of a state -/

/-- Runs an action on a part of a larger state. -/
def zoom (part : τ → σ) (replace : σ → τ → τ) (x : Action σ α) : Action τ α :=
  fun host s => (x host (part s)).mapState fun p => replace p s

end Action

end LineShell
