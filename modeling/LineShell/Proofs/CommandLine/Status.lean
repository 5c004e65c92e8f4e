/-
  LineShell.Proofs.CommandLine.Status

  The status of a run that dispatches one line.

  Such a run succeeds exactly if nothing comes out of its line.  Otherwise its
  status is the one that the failure of the line warrants, and a failure of the
  shell is that of the part of the line that decides (`run_status_warranted`).
  A call on the system can spoil this: one that fails as a program does that has
  ended with success makes a run succeed whose line has failed (`run_status_lies`),
  and so it is with every failure that misleads, whichever of the calls it comes from
  (`run_status_unwarranted`).  Only a failure of the shell is that of the part that
  decides: an interrupt ends the line where it is met (`run_status_interrupted`), and
  so does a handler that is not put in place (`run_status_unguarded`).
-/

import LineShell.Proofs.CommandLine.OneLine
import LineShell.Proofs.Pipeline.Order
import LineShell.Proofs.Shell.Candid
import LineShell.Proofs.Shell.Decisive

namespace LineShell

variable {shell : Shell} {host : Host} {s : Session} {line : String} {f : Failure}

/-! ## What comes out of a line -/

namespace Shell

/-- Of all that has happened in a line, the failure is that of the part of the line that decides.
    Nothing is done behind it but to guard the interrupt key again. -/
def Decided (shell : Shell) (host : Host) (line : String) (f : Failure) (l : List Event) : Prop :=
  ∃ last before behind s, (Tree.parse line).decisive? = some last ∧
    let ran := shell.run last host s
    ran.outcome = .error f ∧ l = before ++ ran.events ++ behind ∧
      ∀ e ∈ behind, e.isInstall = true ∨ e.isLog = true

/-- A program that has decided has been started: nothing but a null character could have kept its
    start from the system. -/
theorem Decided.attempted {l : List Event} {text name : String} {args : List String}
    (h : shell.Decided host line f l)
    (hlast : (Tree.parse line).decisive? = some (.command text (name :: args)))
    (hname : shell.commands.find? name = none)
    (hnull : (name :: args).any Machine.hasNull = false) :
    name :: args ∈ Pipeline.attempted l := by
  obtain ⟨last, before, behind, s, hlast', -, rfl, -⟩ := h
  cases hlast.symm.trans hlast'
  obtain ⟨ok, a, tending, hevents, hattempt, -⟩ :=
    Group.events_foreground shell.setting { program := name, args } host s.machine
  have hran : (shell.run (.command text (name :: args)) host s).events = a ++ tending := by
    rw [run, runTree, runCommand, hname]
    exact hevents
  have hone : Pipeline.attempted a = [name :: args] := by
    refine (Pipeline.attempted_attempt hattempt).resolve_right ?_
    rintro ⟨-, -, hrefused⟩
    cases hnull.symm.trans hrefused
  simp [hran, hone]

section Candid

variable (hcommands : shell.commands = builtinCommands) (hsilent : shell.setting.Silent)
  (hhost : host.Candid) (hpipes : ∀ n f, host.pipeFailures n = some f → f.isSystem = true)
  (hsound : s.machine.Sound)

include hcommands hsilent hhost hpipes hsound

/-- A failure of the shell that comes out of the tree of a line is one of a leaf. -/
theorem run_parse_failure (hshell : f.isShell = true)
    (hf : (shell.run (Tree.parse line) host s).outcome = .error f) :
    f.misleads = false ∧ ∃ last before s', (Tree.parse line).decisive? = some last ∧
      (shell.run last host s').outcome = .error f ∧
      (shell.run (Tree.parse line) host s).events
        = before ++ (shell.run last host s').events := by
  have hfulfils := (obeys_spends shell).fulfils host
  obtain ⟨last, hlast, hfails⟩ := runTree_fails hfulfils.toTolerant hfulfils.run hshell hf
  obtain ⟨part, rfl⟩ := Tree.of_decisive?_parse hlast
  obtain ⟨before, s', hbefore, houtcome, hevents⟩ := hfails
  refine ⟨?_, _, before, s', hlast, houtcome, hevents⟩
  exact leaf_misleads hcommands hsilent hhost hpipes (Tree.ofPart_ne_conditional part)
    (hsound.of_spends hbefore) houtcome

/-- What comes out of a line does not mislead, and a part of the line has decided on it where it
    is a failure of the shell. -/
theorem execute_failure (hf : (shell.execute line host s).outcome = .error f) :
    f.misleads = false ∧
      (f.isShell = true → shell.Decided host line f (shell.execute line host s).events) := by
  by_cases hshell : f.isShell = true
  case neg =>
    exact ⟨Failure.misleads_of_not_isShell (Bool.eq_false_iff.mpr hshell), fun h => absurd h hshell⟩
  have hinstall : ∀ n, host.installFailures n ≠ some f := by
    intro n hn
    rw [hhost.installs n f hn] at hshell
    cases hshell
  rw [execute_apply] at hf ⊢
  cases hexposed : host.installFailures s.machine.installCalls with
  | some f' =>
    rw [Governor.exposed_apply_of_unexposed hexposed] at hf
    cases hf
    exact absurd hexposed (hinstall _)
  | none =>
    cases hran : shell.run (Tree.parse line) host (Governor.exposedSession shell.policy s) with
    | mk outcome s' l =>
    cases hguarded : host.installFailures s'.machine.installCalls with
    | some f' =>
      obtain ⟨message, hrun⟩ := Governor.exposed_apply_of_unguarded hexposed hran hguarded
      rw [hrun] at hf
      cases hf
      exact absurd hguarded (hinstall _)
    -- The line has been run, and its failure is that of the tree.
    | none =>
      obtain ⟨message, message', hrun⟩ := Governor.exposed_apply_of_guarded hexposed hran hguarded
      rw [hrun] at hf ⊢
      obtain ⟨hmisleads, last, before, s'', hlast, houtcome, hevents⟩ :=
        run_parse_failure hcommands hsilent hhost hpipes
          (s := Governor.exposedSession shell.policy s) hsound hshell (by rw [hran]; exact hf)
      rw [hran] at hevents
      obtain rfl : l = before ++ (shell.run last host s'').events := hevents
      refine ⟨hmisleads, fun _ => ?_⟩
      refine ⟨last, _ :: _ :: _ :: before, [_, _], s'', hlast, houtcome, rfl, ?_⟩
      simp [Event.isInstall, Event.isLog]

end Candid

end Shell

/-! ## Statuses -/

namespace ReadLoop

variable {code : Int}

/-- A status is that of success, of a failure that has one, or of an interrupt. -/
theorem dispatch_status (h : (dispatch shell line host s).outcome = .ok code) :
    ((shell.execute line host s).outcome = .ok () ∧ code = 0) ∨
      ∃ f, (shell.execute line host s).outcome = .error f ∧
        (f.exitStatus? = some code ∨ ∃ message, f = .interrupt message ∧ code = 130) := by
  simp only [dispatch, Action.bind_apply, Action.attempt_apply, Result.andThen_ok] at h
  generalize shell.execute line host s = r at h
  obtain ⟨outcome, s', l⟩ := r
  cases outcome with
  | ok =>
    cases h
    exact .inl ⟨rfl, rfl⟩
  | error f =>
    refine .inr ⟨f, rfl, ?_⟩
    cases hstatus : f.exitStatus? with
    | some status =>
      simp only [hstatus] at h
      cases h
      exact .inl rfl
    | none =>
      cases f with
      | interrupt message =>
        cases h
        exact .inr ⟨message, rfl, rfl⟩
      | shell | exitStatus | stage => cases hstatus
      | system | systemText | fault => cases h

/-- An action that is run guarded and comes to a value comes to it after the first guard. -/
theorem outcome_of_guarded {α : Type} {body : Action Session α} {m : Machine} {a : α}
    (h : (guarded shell body host { machine := m }).outcome = .ok a) :
    (body host (guardedSession m)).outcome = .ok a := by
  have hguard := Governor.guard_switched shell.policy host { machine := m }
  rw [guarded, Action.bind_apply] at h
  cases hinstall : host.installFailures m.installCalls with
  | some f =>
    rw [hguard.eq_of_some hinstall] at h
    cases h
  | none =>
    obtain ⟨message, hguarded⟩ := hguard.eq_of_none hinstall
    rw [hguarded, Result.andThen_ok, Result.outcome_after] at h
    -- The handler has been restored, as else nothing would come to a value.
    cases hrestore : (Governor.restore shell.policy host
        (body host (guardedSession m)).state).outcome with
    | error f =>
      rw [← guardedSession, Action.ensuring_apply_of_error hrestore] at h
      cases h
    | ok =>
      rw [← guardedSession, Action.ensuring_apply_of_ok hrestore] at h
      exact h

end ReadLoop

namespace CommandLine

open ReadLoop

/-- What is handed on at the end of a run does not change its status. -/
theorem status_run {args : List String} {interactive : Bool} {lines : List String} {level : Level}
    {task : Task} (hrequest : request args = .run (some level) task) (host : Host) (s : Session) :
    (run args interactive lines host s).outcome
      = (task.carryOut {} interactive lines host s).outcome := by
  rw [run_of_request hrequest, Action.bind_apply]
  generalize task.carryOut {} interactive lines host s = r
  obtain ⟨outcome, s', l⟩ := r
  cases outcome with
  | error f => rfl
  | ok ending =>
    simp only [Result.andThen_ok, Action.bind_apply, Action.inSession, Action.zoom_apply,
      Machine.flush_standard_apply]
    rfl

/-- A run that is to dispatch one line ends with the status of that line. -/
theorem dispatch_of_run {args : List String} {interactive : Bool} {lines : List String}
    {m : Machine} {level : Level} {task : Task} {code : Int}
    (hrequest : request args = .run (some level) task)
    (hsingle : task = .shell → interactive = false)
    (hdue : task.due host interactive lines = [line])
    (hend : (run args interactive lines host { machine := m }).outcome.bind Ending.status
      = .ok code) : (dispatch {} line host (guardedSession m)).outcome = .ok code := by
  rw [status_run hrequest] at hend
  have hguarded : (guarded {} (dispatch {} line) host { machine := m }).outcome = .ok code := by
    cases task with
    | exec raw =>
      have hraw : [Text.trim raw].filter (· ≠ "") = [line] := hdue
      by_cases hblank : Text.trim raw = ""
      · rw [hblank] at hraw
        cases hraw
      · rw [List.filter_cons_of_pos (by simpa using hblank)] at hraw
        cases hraw
        have hempty : ¬ (Text.trim raw).isEmpty := fun h => hblank (String.isEmpty_iff.mp h)
        rw [Task.carryOut_exec, execLine, if_neg hempty] at hend
        exact hend
    | shell =>
      obtain rfl := hsingle rfl
      obtain ⟨⟨unread, hread⟩, -, -⟩ := session_of_due {} hdue { machine := m }
      rw [Task.carryOut, hread] at hend
      exact hend
  exact outcome_of_guarded hguarded

/-- The status with which a run ends that dispatches one line tells what has become of the line. -/
theorem run_status_warranted (args : List String) (interactive : Bool) (lines : List String)
    (host : Host) (hhost : host.Candid)
    (hpipes : ∀ n f, host.pipeFailures n = some f → f.isSystem = true) (m : Machine)
    (hsound : m.Sound) {level : Level} {task : Task} {line : String}
    (hrequest : request args = .run (some level) task)
    (hsingle : task = .shell → interactive = false)
    (hdue : task.due host interactive lines = [line]) {code : Int}
    (hend : (run args interactive lines host { machine := m }).outcome.bind Ending.status
      = .ok code) :
    let r := Shell.execute {} line host (guardedSession m)
    (code = 0 ↔ r.outcome = .ok ()) ∧
      ∀ f, r.outcome = .error f → 0 < code ∧ f.Warrants code ∧
        (f.isShell = true → Shell.Decided {} host line f r.events) := by
  intro r
  have hsilent : ({} : Shell).setting.Silent := by rintro hook ⟨⟩
  have hdispatch := dispatch_of_run hrequest hsingle hdue hend
  rcases dispatch_status hdispatch with ⟨hok, rfl⟩ | ⟨f, hf, hcode⟩
  · refine ⟨⟨fun _ => hok, fun _ => rfl⟩, fun f hf => ?_⟩
    cases hok.symm.trans hf
  · obtain ⟨hmisleads, hdecided⟩ := Shell.execute_failure rfl hsilent hhost hpipes
      (s := guardedSession m) hsound hf
    have hwarrants : f.Warrants code := by
      rcases hcode with hstatus | ⟨message, rfl, rfl⟩
      · exact Failure.warrants_of_exitStatus? hmisleads hstatus
      · exact .interrupted
    have hpos := hwarrants.pos
    refine ⟨⟨fun hzero => by omega, fun hok => ?_⟩, fun f' hf' => ?_⟩
    · cases hok.symm.trans hf
    · cases hf.symm.trans hf'
      exact ⟨hpos, hwarrants, hdecided⟩

/-- A machine on which the second of three programs is killed. -/
def killingMachine : Machine where
  programs
    | "a" => [.started {}]
    | "b" => [.started { status := -9 }]
    | "c" => [.started { status := 3 }]
    | _ => []

/-- A conditional whose last alternative is a pipeline, behind one that has failed. -/
theorem run_status_warranted_killed :
    let args := ["exec", " a && missing || a | b | c "]
    let line := "a && missing || a | b | c"
    let r := Shell.execute {} line {} (guardedSession killingMachine)
    ({} : Host).Candid ∧ killingMachine.Sound ∧
      request args = .run (some .warning) (.exec " a && missing || a | b | c ") ∧
      (run args true [] {} { machine := killingMachine }).outcome.bind Ending.status = .ok 137 ∧
      r.outcome = .error (.stage 1 (.exitStatus "b" (-9))) ∧
      (Failure.stage 1 (.exitStatus "b" (-9))).Warrants 137 ∧
      Shell.Decided {} {} line (.stage 1 (.exitStatus "b" (-9))) r.events := by
  intro args line r
  have hhost : ({} : Host).Candid := ⟨nofun, nofun, nofun, nofun, nofun⟩
  have hsound : killingMachine.Sound := by
    intro program behaviour hmem
    simp only [killingMachine] at hmem
    split at hmem
    case h_4 => cases hmem
    all_goals
      rw [List.mem_singleton.mp hmem]
      rfl
  have hrequest : request args = .run (some .warning) (.exec " a && missing || a | b | c ") := by
    decide +kernel
  have hdue : (Task.exec " a && missing || a | b | c ").due {} true [] = [line] := by
    decide +kernel
  have hend : (run args true [] {} { machine := killingMachine }).outcome.bind Ending.status
      = .ok 137 := by
    decide +kernel
  have hf : r.outcome = .error (.stage 1 (.exitStatus "b" (-9))) := by
    apply Result.failure?_eq_some.mp
    decide +kernel
  obtain ⟨-, hfailure⟩ := run_status_warranted args true [] {} hhost nofun killingMachine hsound
    hrequest nofun hdue hend
  obtain ⟨-, hwarrants, hdecided⟩ := hfailure _ hf
  exact ⟨hhost, hsound, hrequest, hend, hf, hwarrants, hdecided rfl⟩

/-- A file that cannot be opened because a program has ended with success, as the host says it:
    the line fails, and the run succeeds. -/
theorem run_status_lies :
    let host : Host := { openFailures := fun _ => some (.exitStatus "x" 0) }
    let args := ["exec", "echo x > f"]
    let r := Shell.execute {} "echo x > f" host (guardedSession {})
    ({} : Machine).Sound ∧ (∀ n f, host.pipeFailures n = some f → f.isSystem = true) ∧
      request args = .run (some .warning) (.exec "echo x > f") ∧
      (Task.exec "echo x > f").due host true [] = ["echo x > f"] ∧
      (run args true [] host { machine := {} }).outcome.bind Ending.status = .ok 0 ∧
      r.outcome = .error (.exitStatus "x" 0) ∧
      ¬ ((0 : Int) = 0 ↔ r.outcome = .ok ()) := by
  intro host args r
  have hf : r.outcome = .error (.exitStatus "x" 0) := by
    apply Result.failure?_eq_some.mp
    decide +kernel
  refine ⟨fun _ _ => nofun, fun _ _ => nofun, by decide +kernel, by decide +kernel,
    by decide +kernel, hf, fun h => ?_⟩
  cases hf.symm.trans (h.mp rfl)

/-- A machine on which the first wait for a program is interrupted, and another program fails. -/
def interruptingMachine : Machine where
  programs
    | "slow" => [.started { interrupts := 1 }]
    | "next" => [.started { status := 3 }]
    | _ => []

/-- An interrupt is not caught by a conditional: the run has the status of the interrupt, and the
    last alternative, which would have failed with another, is not even started. -/
theorem run_status_interrupted :
    let args := ["exec", "slow || next"]
    let line := "slow || next"
    let last : Tree := .command "next" ["next"]
    let r := Shell.execute {} line {} (guardedSession interruptingMachine)
    ({} : Host).Candid ∧ interruptingMachine.Sound ∧
      request args = .run (some .warning) (.exec line) ∧
      (Task.exec line).due {} true [] = [line] ∧
      (run args true [] {} { machine := interruptingMachine }).outcome.bind Ending.status
        = .ok 130 ∧
      r.outcome = .error (.interrupt "") ∧
      (Tree.parse line).decisive? = some last ∧
      (Shell.run {} last {} r.state).outcome = .error (.exitStatus "next" 3) ∧
      ¬ Shell.Decided {} {} line (.interrupt "") r.events := by
  intro args line last r
  have hhost : ({} : Host).Candid := ⟨nofun, nofun, nofun, nofun, nofun⟩
  have hsound : interruptingMachine.Sound := by
    intro program behaviour hmem
    simp only [interruptingMachine] at hmem
    split at hmem
    case h_3 => cases hmem
    all_goals
      rw [List.mem_singleton.mp hmem]
      rfl
  have hlast : (Tree.parse "slow || next").decisive? = some (.command "next" ["next"]) := by rfl
  have hstarted : Pipeline.attempted r.events = [["slow"]] := by decide +kernel
  refine ⟨hhost, hsound, by decide +kernel, by decide +kernel, by decide +kernel, ?_, hlast, ?_,
    fun hdecided => ?_⟩
  · apply Result.failure?_eq_some.mp
    decide +kernel
  · apply Result.failure?_eq_some.mp
    decide +kernel
  · have hnext := hdecided.attempted hlast rfl rfl
    rw [hstarted] at hnext
    exact absurd hnext (by decide)

/-- Hosts on which one call fails in the given way, each with a line that makes the call. -/
def spoiledCalls (f : Failure) : List (Host × String) :=
  [({ openFailures := fun _ => some f }, "echo x > f"),
    ({ directories := fun _ => some (.error f) }, "cd /"),
    ({ cwdFailure := some f }, "pwd"),
    ({ targets := fun _ => some (some f) }, "kill 7")]

/-- A misleading failure gives the run a status that it does not warrant, whichever of the calls
    it comes from. -/
theorem run_status_unwarranted (hf : f.misleads = true) :
    ∀ w ∈ spoiledCalls f,
      let r := Shell.execute {} w.2 w.1 (guardedSession {})
      r.outcome = .error f ∧ ∃ code,
        (run ["exec", w.2] true [] w.1 { machine := {} }).outcome.bind Ending.status = .ok code ∧
          ¬ f.Warrants code := by
  have hwarrants : ∀ {code}, f.exitStatus? = some code → ¬ f.Warrants code := by
    intro code hcode hwarrants
    cases hf.symm.trans ((Failure.warrants_iff hcode).mp hwarrants)
  simp only [spoiledCalls, List.forall_mem_cons]
  -- A failure of the shell is not claimed anew, so each of the calls hands it on as it is.
  cases f with
  | exitStatus | stage =>
    exact ⟨⟨rfl, _, rfl, hwarrants rfl⟩, ⟨rfl, _, rfl, hwarrants rfl⟩,
      ⟨rfl, _, rfl, hwarrants rfl⟩, ⟨rfl, _, rfl, hwarrants rfl⟩, List.forall_mem_nil _⟩
  | _ => cases hf

/-- A handler that is not put in place behind the line, with a failure of the shell: the run has
    the status of that failure, and no alternative has failed. -/
theorem run_status_unguarded :
    let f : Failure := .shell .argument "no handler"
    let host : Host := {
      directories := fun path => some (.ok path)
      installFailures := fun n => if n = 2 then some f else none }
    let args := ["exec", "cd / && cd /"]
    let line := "cd / && cd /"
    let r := Shell.execute {} line host (guardedSession {})
    ({} : Machine).Sound ∧ request args = .run (some .warning) (.exec line) ∧
      (Task.exec line).due host true [] = [line] ∧
      (run args true [] host { machine := {} }).outcome.bind Ending.status = .ok 2 ∧
      r.outcome = .error f ∧ ¬ Shell.Decided {} host line f r.events := by
  intro f host args line r
  refine ⟨fun _ _ => nofun, by decide +kernel, by decide +kernel, by decide +kernel, ?_, ?_⟩
  · apply Result.failure?_eq_some.mp
    decide +kernel
  -- The command that decides the line cannot fail on this host.
  · rintro ⟨last, before, behind, s, hlast, hran, -⟩
    have hcd : (Tree.parse "cd / && cd /").decisive? = some (.command "cd /" ["cd", "/"]) := by rfl
    cases hcd.symm.trans hlast
    cases hran

end CommandLine

end LineShell
