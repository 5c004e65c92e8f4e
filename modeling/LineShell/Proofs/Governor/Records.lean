/-
  LineShell.Proofs.Governor.Records

  What the records of a governor say.

  A record is of a call for a handler, and the call is refused, or a mode is
  entered, or the kept handler is restored; only a restore may make no call.
  `Took` says what a record can be, given the session before it.  The records of a
  run follow on one another: each is of the session that the one before has left
  (`runSteps_chained`), also where blocks are nested and failures leave them.
-/

import LineShell.Governor.Steps
import LineShell.Proofs.Governor.Calls
import Mathlib.Data.List.Induction

namespace LineShell

namespace Governor

/-! ## Records -/

/-- The mode that a moment is about. -/
def Moment.mode? : Moment → Option Mode
  | .guard | .leave => some .guarded
  | .expose | .enter => some .exposed
  | .restore => none

namespace Record

/-- The session after the moment. -/
def after (r : Record) : Session := r.result.state

/-- The calls for a handler. -/
def installs (r : Record) : List Event := r.result.events.filter Event.isInstall

/-- Whether the system has put a handler in place. -/
def accepted (r : Record) : Bool :=
  r.result.events.any fun
    | .signal _ _ ok => ok
    | _ => false

/-- The mode that has been entered. -/
def entered? (r : Record) : Option Mode := if r.accepted then r.moment.mode? else none

/-- A guard that has succeeded. -/
def Guards (r : Record) : Prop := r.entered? = some .guarded

/-- A restore that has put a handler in place. -/
def Restores (r : Record) : Prop := r.moment = .restore ∧ r.accepted = true

end Record

/-- The session after records, the first of which is of the given session. -/
def stateAfter (s : Session) (l : List Record) : Session := l.foldl (fun _ r => r.after) s

@[simp] theorem stateAfter_nil (s : Session) : stateAfter s [] = s := rfl

@[simp] theorem stateAfter_cons (s : Session) (r : Record) (l : List Record) :
    stateAfter s (r :: l) = stateAfter r.after l := rfl

@[simp] theorem stateAfter_append (s : Session) (l₁ l₂ : List Record) :
    stateAfter s (l₁ ++ l₂) = stateAfter (stateAfter s l₁) l₂ := List.foldl_append

/-! ## What a record can be -/

/-- The handlers that a moment may ask for. -/
def Asks (policy : Policy) (before : Session) (handler : Signal.Handler) : Moment → Prop
  | .guard => handler = .ignore
  | .expose => handler = policy.exposedHandler
  | .restore => before.governor.saved = some handler
  -- A block that could not be exposed is left as soon as it is entered.
  | .leave => handler = .ignore ∨ handler = policy.exposedHandler
  | .enter => False

/-- What a record can be, given the session before it. -/
inductive Took (policy : Policy) (before : Session) : Record → Prop
  /-- There is nothing to restore. -/
  | idle (h : before.governor.saved = none) : Took policy before ⟨.restore, ⟨.ok (), before, []⟩⟩
  | refused {moment : Moment} {handler : Signal.Handler} (f : Failure)
      (h : Asks policy before handler moment) :
      Took policy before ⟨moment, ⟨.error f, before.refusedInstall,
        [.signal policy.signum handler false]⟩⟩
  /-- A block is left guarded whatever comes out of it. -/
  | guarded {moment : Moment} (outcome : Except Failure Unit) (message : String)
      (h : moment.mode? = some .guarded) :
      Took policy before ⟨moment, ⟨outcome,
        ⟨before.machine.installed .ignore, before.governor.guarded before.machine.handler⟩,
        [.signal policy.signum Signal.Handler.ignore true, .log .signals message]⟩⟩
  | exposed {moment : Moment} (message : String) (h : moment.mode? = some .exposed) :
      Took policy before ⟨moment, ⟨.ok (),
        ⟨before.machine.installed policy.exposedHandler, before.governor.enter .exposed⟩,
        [.signal policy.signum policy.exposedHandler true, .log .signals message]⟩⟩
  | restored {previous : Signal.Handler} (message : String)
      (h : before.governor.saved = some previous) :
      Took policy before ⟨.restore, ⟨.ok (),
        ⟨before.machine.installed previous, before.governor.restored⟩,
        [.signal policy.signum previous true, .log .signals message]⟩⟩

/-- Records each of which is of the session that the one before has left. -/
inductive Chained (policy : Policy) : Session → List Record → Prop
  | nil (s : Session) : Chained policy s []
  | cons {s : Session} {r : Record} {l : List Record} (h : Took policy s r)
      (hl : Chained policy r.after l) : Chained policy s (r :: l)

namespace Chained

variable {policy : Policy} {s : Session} {r : Record} {l l₁ l₂ : List Record}

theorem single (h : Took policy s r) : Chained policy s [r] := .cons h (.nil _)

theorem append (h₁ : Chained policy s l₁) (h₂ : Chained policy (stateAfter s l₁) l₂) :
    Chained policy s (l₁ ++ l₂) := by
  induction h₁ with
  | nil s => exact h₂
  | cons h _ ih => exact .cons h (ih h₂)

theorem of_append (h : Chained policy s (l₁ ++ l₂)) :
    Chained policy s l₁ ∧ Chained policy (stateAfter s l₁) l₂ := by
  induction l₁ generalizing s with
  | nil => exact ⟨.nil s, h⟩
  | cons r l₁ ih =>
    rw [List.cons_append] at h
    cases h with
    | cons hr hl =>
      obtain ⟨h₁, h₂⟩ := ih hl
      exact ⟨.cons hr h₁, h₂⟩

/-- The last of the records, and those before it. -/
theorem of_concat (h : Chained policy s (l ++ [r])) :
    Chained policy s l ∧ Took policy (stateAfter s l) r := by
  obtain ⟨hl, hr⟩ := h.of_append
  cases hr with
  | cons hr _ => exact ⟨hl, hr⟩

end Chained

/-! ## Runs -/

variable (policy : Policy) (host : Host)

/-- What leaving a block makes of what has been raised in it. -/
theorem leave_took (raised : Option Failure) (s : Session) :
    Took policy s ⟨.leave, (reraise raised).ensuring (guard policy) host s⟩ ∧
      ∃ ok, Record.installs ⟨.leave, (reraise raised).ensuring (guard policy) host s⟩
        = [.signal policy.signum Signal.Handler.ignore ok] := by
  -- What is raised again neither changes the session nor shows in the trace, so all events of
  -- the leaving are those of the guard.
  have hreraise : ∃ outcome, reraise raised host s = ⟨outcome, s, []⟩ := by
    cases raised with
    | none => exact ⟨.ok (), rfl⟩
    | some f => exact ⟨.error f, rfl⟩
  obtain ⟨outcome, hreraise⟩ := hreraise
  have hguard := guard_switched policy host s
  simp only [Action.ensuring, Action.bind_apply, Action.attempt_apply, hreraise,
    Result.andThen_ok, Action.ofExcept_apply]
  generalize guard policy host s = r at hguard
  cases hguard with
  | refused hf => exact ⟨.refused _ (.inl rfl), false, rfl⟩
  | accepted message h => exact ⟨.guarded outcome message rfl, true, rfl⟩

mutual

/-- The records of a step, and the session that it leaves. -/
theorem runStep_chained (step : Step) (s : Session) :
    Chained policy s (runStep policy host step s).records ∧
      (runStep policy host step s).session
        = stateAfter s (runStep policy host step s).records := by
  match step with
  | .guard =>
    rw [runStep]
    have hspec := guard_switched policy host s
    generalize guard policy host s = r at hspec
    refine ⟨.single ?_, rfl⟩
    cases hspec with
    | refused hf => exact .refused _ rfl
    | accepted message h => exact .guarded _ message rfl
  | .expose =>
    rw [runStep]
    have hspec := expose_switched policy host s
    generalize expose policy host s = r at hspec
    refine ⟨.single ?_, rfl⟩
    cases hspec with
    | refused hf => exact .refused _ rfl
    | accepted message h => exact .exposed message rfl
  | .restore =>
    rw [runStep]
    cases hsaved : s.governor.saved with
    | none =>
      rw [restore_apply_of_none policy host s hsaved]
      exact ⟨.single (.idle hsaved), rfl⟩
    | some previous =>
      have hspec := restore_switched policy host s hsaved
      generalize restore policy host s = r at hspec
      refine ⟨.single ?_, rfl⟩
      cases hspec with
      | refused hf => exact .refused _ hsaved
      | accepted message h => exact .restored message hsaved
  | .raise f =>
    rw [runStep]
    exact ⟨.nil s, rfl⟩
  | .block steps =>
    rw [runStep]
    have hspec := expose_switched policy host s
    generalize expose policy host s = r at hspec
    cases hspec with
    -- Nothing of the block is run, and its one record is that of leaving it.
    | refused hf => exact ⟨.single (.refused _ (.inr rfl)), rfl⟩
    -- The record of entering comes first, then those of the steps inside, then that of leaving.
    | accepted message h =>
      obtain ⟨hinside, hsession⟩ := runSteps_chained steps
        ⟨s.machine.installed policy.exposedHandler, s.governor.enter .exposed⟩
      obtain ⟨hleave, -⟩ := leave_took policy host
        (runSteps policy host steps
          ⟨s.machine.installed policy.exposedHandler, s.governor.enter .exposed⟩).raised
        (runSteps policy host steps
          ⟨s.machine.installed policy.exposedHandler, s.governor.enter .exposed⟩).session
      refine ⟨.cons (.exposed message rfl) (hinside.append (.single ?_)), ?_⟩
      · rw [hsession] at hleave ⊢
        exact hleave
      · simp [Record.after]

/-- The records of a run follow on one another, and the run leaves the session that the last of
    them has left. -/
theorem runSteps_chained (steps : List Step) (s : Session) :
    Chained policy s (runSteps policy host steps s).records ∧
      (runSteps policy host steps s).session
        = stateAfter s (runSteps policy host steps s).records := by
  match steps with
  | [] =>
    rw [runSteps]
    exact ⟨.nil s, rfl⟩
  | step :: rest =>
    rw [runSteps]
    obtain ⟨hfirst, hsession⟩ := runStep_chained step s
    cases hraised : (runStep policy host step s).raised with
    -- What is raised out of a step skips the steps behind it.
    | some f => exact ⟨hfirst, hsession⟩
    | none =>
      obtain ⟨hlater, hend⟩ := runSteps_chained rest (runStep policy host step s).session
      rw [hsession] at hlater hend
      simp only [hsession]
      refine ⟨hfirst.append hlater, ?_⟩
      rw [stateAfter_append]
      exact hend

end

end Governor

end LineShell
