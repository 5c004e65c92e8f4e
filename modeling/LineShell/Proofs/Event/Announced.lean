/-
  LineShell.Proofs.Event.Announced

  Events of which the observer is told one by one.

  Every start and every wait that is not interrupted is followed by a line of
  diagnostics and then by the call of the observer that is about it, and there is
  no other call of the observer.  So the calls are those about the starts and
  those about the ends, in the same order, and a call about an end carries the
  status that the wait just before it has collected.
-/

import LineShell.Proofs.Event.Custody

namespace LineShell

/-- Whether the event is a call of the observer, or one that calls for it. -/
def Event.concernsObserver : Event → Bool
  | .spawn .. | .wait _ (some _) | .hook _ => true
  | _ => false

/-- The observer is told of every start and every end, at once, and of nothing else. -/
inductive Announced : List Event → Prop
  | nil : Announced []
  | spawned {l : List Event} (pid : Int) (argv : List String) (stdin stdout stderr : Stream)
      (env : Option Environment) (source : LogSource) (message : String) (h : Announced l) :
      Announced (.spawn pid argv stdin stdout stderr env :: .log source message ::
        .hook (.spawned pid argv) :: l)
  | reaped {l : List Event} (pid : Int) (argv : List String) (status : Int) (source : LogSource)
      (message : String) (h : Announced l) :
      Announced (.wait pid (some status) :: .log source message ::
        .hook (.reaped pid argv status) :: l)
  | other {e : Event} {l : List Event} (he : e.concernsObserver = false) (h : Announced l) :
      Announced (e :: l)

/-- The numbers that the observer is told of as started, in order. -/
def toldSpawned (l : List Event) : List Int :=
  l.filterMap fun
    | .hook (.spawned pid _) => some pid
    | _ => none

/-- The numbers that the observer is told of as ended, in order. -/
def toldReaped (l : List Event) : List Int :=
  l.filterMap fun
    | .hook (.reaped pid _ _) => some pid
    | _ => none

namespace Announced

variable {l l₁ l₂ : List Event}

theorem append (h₁ : Announced l₁) (h₂ : Announced l₂) : Announced (l₁ ++ l₂) := by
  induction h₁ with
  | nil => exact h₂
  | spawned pid argv stdin stdout stderr env source message _ ih =>
    exact .spawned pid argv stdin stdout stderr env source message ih
  | reaped pid argv status source message _ ih => exact .reaped pid argv status source message ih
  | other he _ ih => exact .other he ih

theorem of_forall (h : ∀ e ∈ l, e.concernsObserver = false) : Announced l := by
  induction l with
  | nil => exact .nil
  | cons e l ih =>
    have hrest := ih fun e' he' => h e' (List.mem_cons_of_mem _ he')
    exact .other (h e List.mem_cons_self) hrest

/-- What the observer is told of as started has been started. -/
theorem toldSpawned_eq (h : Announced l) : toldSpawned l = processes.acquired l := by
  induction h with
  | nil => rfl
  | spawned pid argv stdin stdout stderr env source message _ ih =>
    exact congrArg (pid :: ·) ih
  | reaped pid argv status source message _ ih => exact ih
  | @other e l he _ ih =>
    cases e <;> first | exact ih | exact absurd he (by simp [Event.concernsObserver])

/-- What the observer is told of as ended has been waited for. -/
theorem toldReaped_eq (h : Announced l) : toldReaped l = processes.released l := by
  induction h with
  | nil => rfl
  | spawned pid argv stdin stdout stderr env source message _ ih => exact ih
  | reaped pid argv status source message _ ih => exact congrArg (pid :: ·) ih
  | @other e l he _ ih =>
    cases e with
    | wait pid status? =>
      cases status? with
      | none => exact ih
      | some status => exact absurd he (by simp [Event.concernsObserver])
    | _ => first | exact ih | exact absurd he (by simp [Event.concernsObserver])

/-- A call about an end carries the status that the wait before it has collected; only a
    line of diagnostics stands between them. -/
theorem wait_of_reaped (h : Announced l) {pid status : Int} {argv : List String}
    (hl : l = l₁ ++ .hook (.reaped pid argv status) :: l₂) :
    ∃ l₀ source message, l₁ = l₀ ++ [.wait pid (some status), .log source message] := by
  -- The call is in the rest of the list, unless the list begins with the very end it is about:
  -- the other constructors put no call about an end in front.
  induction h generalizing l₁ with
  | nil => simp at hl
  | @spawned l pid' argv' stdin stdout stderr env source message _ ih =>
    obtain ⟨middle, rfl, hrest⟩ := exists_eq_append_of_notMem
      [.spawn pid' argv' stdin stdout stderr env, .log source message,
        .hook (.spawned pid' argv')] (by simp) hl
    obtain ⟨l₀, source', message', rfl⟩ := ih hrest
    exact ⟨_, source', message', (List.append_assoc ..).symm⟩
  | @reaped l pid' argv' status' source message _ ih =>
    obtain ⟨middle, rfl, hrest⟩ := exists_eq_append_of_notMem
      [.wait pid' (some status'), .log source message] (by simp) hl
    cases middle with
    | nil =>
      -- The call is the one about this very end.
      simp only [List.nil_append, List.cons.injEq, Event.hook.injEq,
        ProcessEvent.reaped.injEq] at hrest
      obtain ⟨⟨rfl, -, rfl⟩, -⟩ := hrest
      exact ⟨[], source, message, rfl⟩
    | cons e middle =>
      injection hrest with _ hrest
      obtain ⟨l₀, source', message', rfl⟩ := ih hrest
      exact ⟨.wait pid' (some status') :: .log source message :: e :: l₀, source', message', rfl⟩
  | @other e l he _ ih =>
    have hne : .hook (.reaped pid argv status) ∉ [e] := by
      rintro (_ | ⟨_, ⟨⟩⟩)
      exact absurd he (by simp [Event.concernsObserver])
    obtain ⟨middle, rfl, hrest⟩ := exists_eq_append_of_notMem [e] hne hl
    obtain ⟨l₀, source', message', rfl⟩ := ih hrest
    exact ⟨_, source', message', (List.append_assoc ..).symm⟩

end Announced

end LineShell
