/-
  LineShell.Proofs.Action.Similar

  Actions that differ in their diagnostics only.

  Two actions are similar when from any state they come to the same outcome and
  leave the same state, and their events are the same once the lines of
  diagnostics are struck out.  A line of diagnostics is similar to doing nothing,
  and similar parts make similar wholes, so diagnostics can be dropped or added
  anywhere inside an action.
-/

import LineShell.Action.Lemmas

namespace LineShell

variable {σ τ α β : Type}

/-- The events without the lines of diagnostics. -/
def withoutLog (l : List Event) : List Event := l.filter fun e => !e.isLog

@[simp] theorem withoutLog_nil : withoutLog [] = [] := rfl

@[simp] theorem withoutLog_append (l₁ l₂ : List Event) :
    withoutLog (l₁ ++ l₂) = withoutLog l₁ ++ withoutLog l₂ := List.filter_append ..

namespace Result

/-- The result without the lines of diagnostics. -/
def withoutLog (r : Result σ α) : Result σ α := { r with events := LineShell.withoutLog r.events }

theorem withoutLog_andThen (r : Result σ α) (next : α → σ → Result σ β) :
    (r.andThen next).withoutLog = r.withoutLog.andThen fun a s => (next a s).withoutLog := by
  obtain ⟨outcome | a, s, l⟩ := r
  · rfl
  · simp only [andThen_ok, withoutLog, after, withoutLog_append]

end Result

namespace Action

/-- Same outcome, same state, and the same events but for diagnostics. -/
def Similar (x y : Action σ α) : Prop :=
  ∀ host s, (x host s).withoutLog = (y host s).withoutLog

namespace Similar

variable {x y z : Action σ α}

theorem refl (x : Action σ α) : x.Similar x := fun _ _ => rfl

theorem trans (h₁ : x.Similar y) (h₂ : y.Similar z) : x.Similar z :=
  fun host s => (h₁ host s).trans (h₂ host s)

theorem bind {f g : α → Action σ β} (hx : x.Similar y) (hf : ∀ a, (f a).Similar (g a)) :
    (x >>= f).Similar (y >>= g) := by
  intro host s
  have hnext : (fun a s' => (f a host s').withoutLog) = fun a s' => (g a host s').withoutLog :=
    funext fun a => funext fun s' => hf a host s'
  rw [bind_apply, bind_apply, Result.withoutLog_andThen, Result.withoutLog_andThen, hx host s,
    hnext]

/-- A line of diagnostics before an action makes no difference. -/
theorem log_bind (source : LogSource) (message : String) (f : Unit → Action σ α) :
    (log source message >>= f).Similar (f ()) := by
  intro host s
  rw [bind_apply, log_apply, Result.withoutLog_andThen]
  show Result.after [] (f () host s).withoutLog = _
  rw [Result.after_nil]

theorem log (source : LogSource) (message : String) :
    (log source message : Action σ Unit).Similar (pure ()) := fun _ _ => rfl

theorem attempt (h : x.Similar y) : x.attempt.Similar y.attempt := by
  intro host s
  have hr := h host s
  simp only [Result.withoutLog, Result.mk.injEq] at hr
  simp only [attempt_apply, Result.withoutLog, hr]

theorem ensuring {cleanup : Action σ Unit} (h : x.Similar y) :
    (x.ensuring cleanup).Similar (y.ensuring cleanup) :=
  bind (attempt h) fun _ => refl _

end Similar

end Action

end LineShell
