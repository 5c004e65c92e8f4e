/-
  LineShell.Proofs.CommandLine.Restored

  The interrupt handler over a whole run of the program.

  A run that dispatches lines has the interrupt key ignored from its beginning on,
  exposes it for each line that it dispatches, and in the end puts the handler
  back that it has found.  A failure that is not reported ends the run, and what
  would have been dispatched behind it is not; the handler is restored all the
  same (`run_restores`).
-/

import LineShell.CommandLine.Run
import LineShell.Proofs.ReadLoop.Reference
import LineShell.Proofs.Shell.Exposure
import LineShell.Proofs.Shell.Reported

namespace LineShell

variable {policy : Governor.Policy} {shell : Shell} {host : Host} {s s' : Session}
  {line : String} {lines : List String} {l : List Event}

/-! ## Lines that are dispatched -/

namespace ReadLoop

/-- The lines of the input that are to be dispatched: all up to the first exit word, or the
    first that is not empty. -/
def due (host : Host) (interactive : Bool) (lines : List String) : List String :=
  let asked := lines.filter (· ≠ "")
  let prepared := (if interactive then asked else asked.take 1).map (prepare host)
  (prepared.takeWhile (· ∉ exitWords)).filter (· ≠ "")

/-- The lines that are dispatched of those that are to be: none behind one whose failure is not
    reported.  Each is dispatched in the state that those before it have left. -/
def dispatched (shell : Shell) (host : Host) : List String → Session → List String
  | [], _ => []
  | line :: rest, s =>
    let r := shell.execute line host s
    if r.failure?.all Failure.isReported then line :: dispatched shell host rest r.state
    else [line]

/-- Behind a failure that is not reported no line is dispatched. -/
theorem dispatched_cons_of_error {f : Failure}
    (h : dispatch shell line host s = ⟨.error f, s', l⟩) (rest : List String) :
    dispatched shell host (line :: rest) s = [line] := by
  obtain ⟨-, -, hfailure⟩ := dispatch_spec shell line host s
  obtain ⟨hexecute, hunreported⟩ := (hfailure f).mp (by rw [h])
  have hall : (shell.execute line host s).failure?.all Failure.isReported = false := by
    rw [Result.failure?_eq_some.mpr hexecute]
    exact hunreported
  simp [dispatched, hall]

theorem dispatched_cons_of_ok {status : Int}
    (h : dispatch shell line host s = ⟨.ok status, s', l⟩) (rest : List String) :
    dispatched shell host (line :: rest) s = line :: dispatched shell host rest s' := by
  obtain ⟨hstate, -, hfailure⟩ := dispatch_spec shell line host s
  rw [h] at hstate
  -- What has not come out of the line has been reported.
  have hall : (shell.execute line host s).failure?.all Failure.isReported = true := by
    cases hf : (shell.execute line host s).failure? with
    | none => rfl
    | some f =>
      cases hreported : f.isReported with
      | true => exact hreported
      | false =>
        have hraised := (hfailure f).mpr ⟨Result.failure?_eq_some.mp hf, hreported⟩
        rw [h] at hraised
        cases hraised
  simp [dispatched, hall, ← hstate]

section Due

variable {raw : String} {rest : List String} {interactive : Bool}

theorem due_cons_empty (host : Host) (interactive : Bool) (rest : List String) :
    due host interactive ("" :: rest) = due host interactive rest := rfl

theorem due_cons_of_exit (hraw : raw ≠ "") (h : prepare host raw ∈ exitWords) :
    due host interactive (raw :: rest) = [] := by
  cases interactive <;> simp [due, hraw, h]

theorem due_cons_of_blank (hraw : raw ≠ "") (h : prepare host raw = "") :
    due host interactive (raw :: rest) = if interactive then due host interactive rest else [] := by
  have hexit : "" ∉ exitWords := by decide
  cases interactive <;> simp [due, hraw, h, hexit]

theorem due_cons (h : Due host raw) :
    due host interactive (raw :: rest)
      = prepare host raw :: if interactive then due host interactive rest else [] := by
  cases interactive <;> simp [due, h.nonempty, h.exits, h.line]

end Due

/-! ## Calls for a handler -/

/-- Two calls for each of the lines, and the handler that is kept stays the same. -/
structure Toggles (policy : Governor.Policy) (lines : List String) (s : Session) (l : List Event)
    (s' : Session) : Prop where
  calls : l.filter Event.isInstall = lines.flatMap fun _ => [policy.exposure, policy.guarding]
  saved : ∀ previous, s.governor.saved = some previous → s'.governor.saved = some previous

namespace Toggles

theorem of_unswitched (hl : ∀ e ∈ l, e.isInstall = false)
    (hsaved : s'.governor.saved = s.governor.saved) : Toggles policy [] s l s' where
  calls := filter_isInstall_eq_nil hl
  saved _ h := hsaved.trans h

theorem append {lines₁ lines₂ : List String} {s₁ s₂ s₃ : Session} {l₁ l₂ : List Event}
    (h₁ : Toggles policy lines₁ s₁ l₁ s₂) (h₂ : Toggles policy lines₂ s₂ l₂ s₃) :
    Toggles policy (lines₁ ++ lines₂) s₁ (l₁ ++ l₂) s₃ where
  calls := by rw [List.filter_append, h₁.calls, h₂.calls, List.flatMap_append]
  saved previous h := h₂.saved previous (h₁.saved previous h)

end Toggles

/-- The session after the first guard. -/
def guardedSession (m : Machine) : Session :=
  ⟨m.installed .ignore, Governor.guarded {} m.handler⟩

/-- The calls for a handler of a run that dispatches the lines, and the handler in the end. -/
def Restores {α : Type} (policy : Governor.Policy) (lines : List String) (m : Machine)
    (r : Result Session α) : Prop :=
  r.events.filter Event.isInstall =
      policy.guarding :: (lines.flatMap fun _ => [policy.exposure, policy.guarding]) ++
        [.signal policy.signum m.handler true] ∧
    r.state.machine.handler = m.handler

section Installs

variable (hinstalls : ∀ n, host.installFailures n = none)

include hinstalls

theorem guard_first (policy : Governor.Policy) (m : Machine) :
    ∃ message, Governor.guard policy host { machine := m }
      = ⟨.ok (), guardedSession m, [policy.guarding, .log .signals message]⟩ :=
  (Governor.guard_switched policy host { machine := m }).eq_of_none (hinstalls _)

/-- Whatever comes of the lines, the handler found by the first guard is restored behind them. -/
theorem Toggles.restores {lines : List String} {m : Machine}
    (h : Toggles policy lines (guardedSession m) l s) (message : String) :
    ∃ message' s', Governor.restore policy host s
        = ⟨.ok (), s', [.signal policy.signum m.handler true, .log .signals message']⟩ ∧
      ∀ {α : Type} (outcome : Except Failure α), Restores policy lines m
        ⟨outcome, s', [policy.guarding, .log .signals message] ++
          (l ++ [.signal policy.signum m.handler true, .log .signals message'])⟩ := by
  have hsaved : s.governor.saved = some m.handler := h.saved m.handler rfl
  obtain ⟨message', hrestore⟩ :=
    (Governor.restore_switched policy host s hsaved).eq_of_none (hinstalls _)
  refine ⟨message', _, hrestore, fun outcome => ⟨?_, rfl⟩⟩
  simp only [List.filter_append, h.calls]
  rfl

variable (hscripts : ¬ shell.Redispatches)

include hscripts

theorem execute_toggles (line : String) (s : Session) :
    Toggles shell.policy [line] s (shell.execute line host s).events
      (shell.execute line host s).state := by
  obtain ⟨hunswitched, hgovernor⟩ := (Shell.fulfils_unswitched hscripts host).run (Tree.parse line)
    (Governor.exposedSession shell.policy s)
  obtain ⟨message, message', hrun⟩ := Governor.exposed_apply_of_installs hinstalls shell.policy
    (shell.run (Tree.parse line)) s
  rw [Shell.execute_apply, hrun]
  generalize shell.run (Tree.parse line) host _ = ran at hunswitched hgovernor
  constructor
  · -- The tree between the two calls makes none.
    show _ :: (ran.events ++ [_, Event.log _ _]).filter Event.isInstall = _
    rw [List.filter_append, filter_isInstall_eq_nil hunswitched.events]
    rfl
  · intro previous hprevious
    have hkept : ran.state.governor.saved = some previous := by
      rw [hgovernor]
      exact hprevious
    show some (ran.state.governor.saved.getD _) = some previous
    rw [hkept]
    rfl

theorem dispatch_toggles (line : String) (s : Session) :
    Toggles shell.policy [line] s (dispatch shell line host s).events
      (dispatch shell line host s).state := by
  obtain ⟨hstate, ⟨l, hevents, hl⟩, -⟩ := dispatch_spec shell line host s
  have hreport : ∀ e ∈ l, e.isInstall = false := by
    intro e he
    obtain ⟨text, rfl⟩ := hl e he
    rfl
  have hexecute := execute_toggles hinstalls hscripts line s
  rw [hstate, hevents]
  exact hexecute.append (.of_unswitched hreport rfl)

theorem readLines_toggles (interactive : Bool) (lines : List String) (s : Session) :
    let r := readLines shell interactive lines host s
    Toggles shell.policy (dispatched shell host (due host interactive lines) s) s r.events
      r.state := by
  induction lines generalizing s with
  | nil =>
    cases interactive with
    | true =>
      exact .of_unswitched
        (List.forall_mem_cons.mpr ⟨rfl, List.forall_mem_singleton.mpr rfl⟩) rfl
    | false => exact .of_unswitched (List.forall_mem_singleton.mpr rfl) rfl
  | cons raw rest ih =>
    have hinput : Toggles shell.policy [] s [.input (if interactive then prompt else "")] s :=
      .of_unswitched (List.forall_mem_singleton.mpr rfl) rfl
    -- What a line leads to behind it: the rest of the lines, or nothing.
    have hgoOn : ∀ status s, Toggles shell.policy
        (dispatched shell host (if interactive then due host interactive rest else []) s) s
        (goOn shell interactive rest status host s).events
        (goOn shell interactive rest status host s).state := by
      intro status s
      cases interactive with
      | true => exact ih s
      | false => exact .of_unswitched (List.forall_mem_nil _) rfl
    obtain ⟨r, hread, hr⟩ := readLines_cons shell interactive raw rest host s
    rw [hr]
    refine hinput.append ?_
    cases hread with
    | empty h =>
      rw [h, due_cons_empty]
      exact ih s
    | exited hraw h =>
      rw [due_cons_of_exit hraw h]
      exact .of_unswitched (List.forall_mem_nil _) rfl
    | blank hraw h =>
      rw [due_cons_of_blank hraw h]
      exact hgoOn 0 s
    | @failed f s' l h hdue =>
      have hline := dispatch_toggles hinstalls hscripts (prepare host raw) s
      rw [h] at hline
      rw [due_cons hdue, dispatched_cons_of_error h]
      exact hline
    | @dispatched status s' l h hdue =>
      have hline := dispatch_toggles hinstalls hscripts (prepare host raw) s
      rw [h] at hline
      rw [due_cons hdue, dispatched_cons_of_ok h]
      exact hline.append (hgoOn status s')

/-! ## Guarded runs -/

theorem session_restores (interactive : Bool) (lines : List String) (m : Machine) :
    let r := session shell interactive lines host { machine := m }
    Restores shell.policy (dispatched shell host (due host interactive lines) (guardedSession m))
      m r ∧ ∃ ending, r.outcome = .ok ending := by
  obtain ⟨message, hguard⟩ := guard_first hinstalls shell.policy m
  have hlines := readLines_toggles hinstalls hscripts interactive lines (guardedSession m)
  obtain ⟨ending, hending⟩ := readLines_outcome shell interactive lines host (guardedSession m)
  generalize hread : readLines shell interactive lines host (guardedSession m) = ran
    at hlines hending
  obtain ⟨message', s', hrestore, hrestores⟩ := hlines.restores hinstalls message
  have hrun : session shell interactive lines host { machine := m }
      = ⟨.ok ending, s', [shell.policy.guarding, .log .signals message] ++
        (ran.events ++
          [.signal shell.policy.signum m.handler true, .log .signals message'])⟩ := by
    obtain ⟨outcome, s, l⟩ := ran
    obtain rfl : outcome = .ok ending := hending
    simp only [session, Action.bind_apply, Action.attempt_apply, hguard, Result.andThen_ok, hread,
      hrestore]
    rfl
  rw [hrun]
  exact ⟨hrestores _, ending, rfl⟩

theorem execLine_restores (hline : Text.trim line ≠ "") (m : Machine) :
    Restores shell.policy (dispatched shell host [Text.trim line] (guardedSession m)) m
      (execLine shell line host { machine := m }) := by
  obtain ⟨message, hguard⟩ := guard_first hinstalls shell.policy m
  have hdispatch := dispatch_toggles hinstalls hscripts (Text.trim line) (guardedSession m)
  have hdispatched : dispatched shell host [Text.trim line] (guardedSession m)
      = [Text.trim line] := by
    simp only [dispatched]
    split <;> rfl
  obtain ⟨message', s', hrestore, hrestores⟩ := hdispatch.restores hinstalls message
  have hempty : ¬ (Text.trim line).isEmpty := fun h => hline (String.isEmpty_iff.mp h)
  have hcleanup : (Governor.restore shell.policy host
      (dispatch shell (Text.trim line) host (guardedSession m)).state).outcome = .ok () := by
    rw [hrestore]
  rw [hdispatched, execLine, if_neg hempty, guarded, Action.bind_apply, hguard, Result.andThen_ok,
    Action.ensuring_apply_of_ok hcleanup, hrestore]
  exact hrestores _

end Installs

end ReadLoop

/-! ## Whole runs -/

namespace CommandLine

open ReadLoop

/-- The lines that a task is to dispatch. -/
def Task.due (host : Host) (interactive : Bool) (lines : List String) : Task → List String
  | .exec line => [Text.trim line].filter (· ≠ "")
  | .shell => ReadLoop.due host interactive lines

/-- The commands of the program dispatch no lines. -/
theorem not_redispatches : ¬ ({} : Shell).Redispatches := by
  rintro ⟨name, actions, line, hfind, -⟩
  obtain ⟨command, -, hhandler⟩ := builtin_of_find? hfind
  cases hhandler

theorem Task.carryOut_exec (shell : Shell) (interactive : Bool) (lines : List String)
    (line : String) (host : Host) (s : Session) :
    let alone := execLine shell line host s
    (Task.exec line).carryOut shell interactive lines host s
      = ⟨.ok ⟨alone.outcome, lines⟩, alone.state, alone.events⟩ := by
  simp [Task.carryOut]

/-- A run with a level carries out its task, and hands on what waits for the output. -/
theorem run_of_request {args : List String} {level : Level} {task : Task}
    (hrequest : request args = .run (some level) task) (interactive : Bool)
    (lines : List String) :
    run args interactive lines = task.carryOut {} interactive lines >>= fun ending =>
      (Machine.flush .standard).inSession >>= fun _ => pure ending := by
  rw [run, hrequest]
  rfl

/-- What is handed on at the end of a run makes no call for a handler. -/
theorem run_apply {args : List String} {interactive : Bool} {m : Machine} {level : Level}
    {task : Task} (hrequest : request args = .run (some level) task) {ending : Ending}
    (h : task.carryOut {} interactive lines host { machine := m } = ⟨.ok ending, s, l⟩) :
    let r := run args interactive lines host { machine := m }
    r.events.filter Event.isInstall = l.filter Event.isInstall ∧
      r.state.machine.handler = s.machine.handler := by
  have hflushed : s.machine.flushed.filter Event.isInstall = [] := by
    refine filter_isInstall_eq_nil fun e he => ?_
    obtain ⟨text, rfl⟩ := Machine.mem_flushed he
    rfl
  rw [run_of_request hrequest]
  simp [h, Action.inSession, Machine.flush_standard_apply, hflushed]

/-- The run ignores the interrupt key first, then exposes and guards it for each line that is
    dispatched, and restores the handler that it has found. -/
theorem run_restores (args : List String) (interactive : Bool) (lines : List String) (host : Host)
    (hinstalls : ∀ n, host.installFailures n = none) (m : Machine) {level : Level} {task : Task}
    (hrequest : request args = .run (some level) task) :
    let r := run args interactive lines host { machine := m }
    let served := dispatched {} host (task.due host interactive lines) (guardedSession m)
    let blank := ∃ line, task = .exec line ∧ Text.trim line = ""
    (blank → r.events.filter Event.isInstall = []) ∧
      (¬ blank → r.events.filter Event.isInstall =
        .signal 2 "SIG_IGN" true ::
          (served.flatMap fun _ =>
            [.signal 2 "default_int_handler" true, .signal 2 "SIG_IGN" true]) ++
          [.signal 2 m.handler true]) ∧
      r.state.machine.handler = m.handler := by
  intro r served blank
  cases task with
  | exec line =>
    -- A run of one line is what comes of the line, and it leaves the input alone.
    obtain ⟨hevents, hstate⟩ := run_apply hrequest
      (Task.carryOut_exec {} interactive lines line host { machine := m })
    by_cases hline : Text.trim line = ""
    · have hblank : execLine {} line host { machine := m } = ⟨.ok 0, { machine := m }, []⟩ := by
        simp [execLine, hline]
      rw [hblank] at hevents hstate
      exact ⟨fun _ => hevents, fun hnot => absurd ⟨line, rfl, hline⟩ hnot, hstate⟩
    · obtain ⟨hcalls, hhandler⟩ := execLine_restores hinstalls not_redispatches hline m
      have hdue : (Task.exec line).due host interactive lines = [Text.trim line] := by
        simp [Task.due, hline]
      refine ⟨?_, fun _ => ?_, hstate.trans hhandler⟩
      · rintro ⟨line', ⟨⟩, hline'⟩
        exact absurd hline' hline
      · rw [hevents]
        show _ = _ :: (dispatched {} host _ _).flatMap _ ++ _
        rw [hdue]
        exact hcalls
  | shell =>
    obtain ⟨⟨hcalls, hhandler⟩, ending, hending⟩ :=
      session_restores hinstalls not_redispatches interactive lines m
    have hran : session {} interactive lines host { machine := m }
        = ⟨.ok ending, (session {} interactive lines host { machine := m }).state,
          (session {} interactive lines host { machine := m }).events⟩ := by
      rw [← hending]
    obtain ⟨hevents, hstate⟩ := run_apply hrequest hran
    refine ⟨?_, fun _ => hevents.trans hcalls, hstate.trans hhandler⟩
    rintro ⟨line, ⟨⟩, -⟩

/-- A run that is ended by the second of three lines. -/
theorem run_restores_escaping :
    let host : Host := { cwdFailure := some .noSuchFile }
    let lines := ["echo a", "pwd", "echo b"]
    (∀ n, host.installFailures n = none) ∧ request ["shell"] = .run (some .warning) .shell ∧
      (run ["shell"] true lines host { machine := {} }).outcome.bind Ending.status
          = .error .noSuchFile ∧
      (run ["shell"] true lines host { machine := {} }).events.filter Event.isInstall =
        [.signal 2 "SIG_IGN" true,
          .signal 2 "default_int_handler" true, .signal 2 "SIG_IGN" true,
          .signal 2 "default_int_handler" true, .signal 2 "SIG_IGN" true,
          .signal 2 "default_int_handler" true] ∧
      (run ["shell"] true lines host { machine := {} }).state.machine.handler
          = "default_int_handler" := by
  intro host lines
  have hrequest : request ["shell"] = .run (some .warning) .shell := by decide
  obtain ⟨-, hcalls, hhandler⟩ :=
    run_restores ["shell"] true lines host (fun _ => rfl) {} hrequest
  have hdispatched : dispatched {} host (due host true lines) (guardedSession {})
      = ["echo a", "pwd"] := by decide +kernel
  have hshell : ¬ ∃ line, Task.shell = .exec line ∧ Text.trim line = "" := by
    rintro ⟨line, ⟨⟩, -⟩
  have hfound : ({} : Machine).handler = "default_int_handler" := rfl
  rw [hfound] at hhandler
  refine ⟨fun _ => rfl, hrequest, ?_, ?_, hhandler⟩
  · decide +kernel
  · rw [hcalls hshell, Task.due, hdispatched]
    rfl

end CommandLine

end LineShell
