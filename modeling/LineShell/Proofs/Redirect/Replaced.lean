/-
  LineShell.Proofs.Redirect.Replaced

  A redirected command is its program with one stream replaced.

  Nothing that is done for a process looks at the files, and its streams show only
  where it is started.  So a program that is run in the foreground while a file is
  open, with a stream bound to it, does what the program by itself does
  (`foreground_carried`): it comes to the same outcome and the same events, but for
  the stream in the events of its start.  A redirected command adds the opening of
  the file before, and the closing behind (`Shell.run_redirect_replaced`).
-/

import LineShell.Proofs.Action.Carried
import LineShell.Proofs.Group.Events
import LineShell.Proofs.Redirect.Inversion
import LineShell.Shell.Basic

namespace LineShell

/-- The event with the stream that a redirect of the given kind replaces, where it is that of a
    start. -/
def Event.redirected (mode : OpenMode) (path : String) : Event → Event
  | .spawn pid argv stdin stdout stderr env =>
    match mode with
    | .read => .spawn pid argv (.file path) stdout stderr env
    | .append | .truncate => .spawn pid argv stdin (.file path) stderr env
  | .spawnFailed argv stdin stdout =>
    match mode with
    | .read => .spawnFailed argv (.file path) stdout
    | .append | .truncate => .spawnFailed argv stdin (.file path)
  | e => e

/-- A process that is started has the streams of the shell. -/
def Event.Inherits : Event → Prop
  | .spawn _ _ stdin stdout stderr _ =>
    stdin = .inherited ∧ stdout = .inherited ∧ stderr = .inherited
  | .spawnFailed _ stdin stdout => stdin = .inherited ∧ stdout = .inherited
  | _ => True

namespace Redirect

/-- The block on whose machine a file has been opened. -/
def openedIn (target : String) (b : Block) : Block :=
  { b with machine := opened target b.machine }

/-- With the file open, and the stream bound to it, the second action does what the first does. -/
abbrev Carried {α : Type} (mode : OpenMode) (target : String) (x y : Action Machine α) : Prop :=
  Action.Carried (opened target) (Event.redirected mode target) x y

/-- The same inside a block. -/
abbrev CarriedIn {α : Type} (mode : OpenMode) (target : String) (x y : Action Block α) : Prop :=
  Action.Carried (openedIn target) (Event.redirected mode target) x y

variable {setting : Setting} {mode : OpenMode} {target : String}

/-! ## Calls -/

theorem flush_carried :
    Carried mode target (Machine.flush .standard) (Machine.flush .standard) := by
  refine .get_bind fun m => ?_
  show Action.Carried _ _ (if m.standardBuffer.isEmpty then _ else _)
    (if m.standardBuffer.isEmpty then _ else _)
  split
  · exact .pure ()
  · exact .bind (.modify fun _ => rfl) fun _ => .emit rfl

theorem notify_carried (event : ProcessEvent) :
    Carried mode target (setting.notify event) (setting.notify event) := by
  intro host m
  have hnotices : (setting.notices event).map (Event.redirected mode target)
      = setting.notices event := by
    unfold Setting.notices
    split <;> rfl
  rw [Setting.notify_apply, Setting.notify_apply, Result.carry, hnotices]
  rfl

/-- The queues of the programs are not those of the files. -/
theorem takeBehaviour_opened (m : Machine) (program : String) :
    (opened target m).takeBehaviour program
      = ((m.takeBehaviour program).1, opened target (m.takeBehaviour program).2) := by
  show Machine.takeBehaviour { m with files := target :: m.files } program = _
  unfold Machine.takeBehaviour
  rcases hprogram : m.programs program with _ | ⟨next, _ | ⟨later, rest⟩⟩ <;>
    simp only <;> rfl

@[simp] theorem program_attach (invocation : Invocation) :
    (attach mode target invocation).program = invocation.program := by
  cases mode <;> rfl

/-- The stream that is replaced shows in the event of the start, and nowhere else. -/
theorem launch_carried (invocation : Invocation) (environment : Option Environment) :
    Carried mode target (Process.launch invocation environment)
      (Process.launch (attach mode target invocation) environment) := by
  intro host m
  by_cases hnull : invocation.argv.any Machine.hasNull = true
  · simp only [Process.launch, argv_attach, hnull, if_true]
    rfl
  · rw [Bool.not_eq_true] at hnull
    have hattached : (attach mode target invocation).argv.any Machine.hasNull = false := by
      rw [argv_attach, hnull]
    rw [Process.launch_apply hnull, Process.launch_apply hattached, takeBehaviour_opened,
      argv_attach, program_attach]
    obtain ⟨behaviour, m'⟩ := m.takeBehaviour invocation.program
    cases behaviour <;> cases mode <;> rfl

/-! ## Members of a group -/

theorem member?_openedIn (b : Block) (i : Nat) : (openedIn target b).member? i = b.member? i := rfl

theorem inBlock_carried {α : Type} {x y : Action Machine α} (h : Carried mode target x y) :
    CarriedIn mode target x.inBlock y.inBlock :=
  h.zoom (fun _ => rfl) fun _ _ => rfl

theorem start_carried (invocation : Invocation) :
    CarriedIn mode target (Group.start setting invocation)
      (Group.start setting (attach mode target invocation)) := by
  unfold Group.start
  rw [argv_attach, program_attach]
  exact .bind (inBlock_carried flush_carried) fun _ =>
    .bind (.mapFailure (inBlock_carried (launch_carried _ _)) _) fun p =>
    .get_bind fun b => .bind (.modify fun _ => rfl) fun _ => .bind (.emit rfl) fun _ =>
    .bind (inBlock_carried (notify_carried _)) fun _ => .pure _

theorem awaitEnd_carried (pid status : Int) (interrupts : Nat) :
    CarriedIn mode target (Process.awaitEnd pid status interrupts)
      (Process.awaitEnd pid status interrupts) := by
  induction interrupts with
  | zero => exact .bind (.emit rfl) fun _ => .pure false
  | succ interrupts ih => exact .bind (.emit rfl) fun _ => .bind ih fun _ => .pure true

theorem reap_carried (i : Nat) :
    CarriedIn mode target (Group.reap setting i) (Group.reap setting i) := by
  refine .get_bind fun b => ?_
  rw [member?_openedIn]
  cases b.member? i with
  | none => exact .fail _
  | some p =>
    refine .get_bind fun b => ?_
    show Action.Carried _ _ (if p.pid ∈ b.group.reaped then _ else _)
      (if p.pid ∈ b.group.reaped then _ else _)
    split
    · exact .pure _
    · refine .bind (awaitEnd_carried _ _ _) fun interrupted => .bind (.modify fun _ => rfl) fun _ =>
        .bind (.emit rfl) fun _ => .bind (inBlock_carried (notify_carried _)) fun _ => ?_
      cases interrupted
      · exact .pure _
      · exact .fail _

theorem wait_carried (i : Nat) :
    CarriedIn mode target (Group.wait setting i) (Group.wait setting i) := by
  refine .bind (reap_carried i) fun status? => ?_
  split
  · exact .pure ()
  · refine .get_bind fun b => ?_
    rw [member?_openedIn]
    split <;> exact .fail _

theorem terminate_carried (i : Nat) :
    CarriedIn mode target (Group.terminate i) (Group.terminate i) := by
  refine .get_bind fun b => ?_
  rw [member?_openedIn]
  cases b.member? i with
  | none => exact .fail _
  | some p => exact .bind (.emit rfl) fun _ => .modify fun _ => rfl

theorem settle_carried (i : Nat) :
    CarriedIn mode target (Group.settle setting i) (Group.settle setting i) := by
  refine .bind (.attempt (reap_carried i)) fun outcome => ?_
  split
  · exact .pure _
  · exact .pure _
  · exact .fail _

theorem release_carried (stopping : Bool) (i : Nat) :
    CarriedIn mode target (Group.release setting stopping i)
      (Group.release setting stopping i) := by
  refine .get_bind fun b => ?_
  rw [member?_openedIn]
  cases b.member? i with
  | none => exact .pure _
  | some p =>
    refine .get_bind fun b => ?_
    show Action.Carried _ _ (if p.pid ∈ b.group.reaped then _ else _)
      (if p.pid ∈ b.group.reaped then _ else _)
    split
    · exact .pure _
    · dsimp only
      split
      · exact .bind (.emit rfl) fun _ => .bind (terminate_carried i) fun _ => settle_carried i
      · exact settle_carried i

theorem releaseAll_carried (stopping : Bool) (interrupt : Option Failure) (positions : List Nat) :
    CarriedIn mode target (Group.releaseAll setting stopping interrupt positions)
      (Group.releaseAll setting stopping interrupt positions) := by
  induction positions generalizing stopping interrupt with
  | nil => exact .pure _
  | cons i rest ih =>
    refine .bind (release_carried stopping i) fun found => ?_
    cases found with
    | none => exact ih _ _
    | some f => exact ih _ _

/-- The failure of a block, and the interrupts met while leaving it, are carried over. -/
theorem closing_carried {α : Type} {x y : Action Block α} (h : CarriedIn mode target x y) :
    CarriedIn mode target (Group.closing setting x) (Group.closing setting y) := by
  refine .bind h.attempt fun outcome => .get_bind fun b => ?_
  cases outcome with
  | error f => exact .bind (releaseAll_carried _ _ _) fun _ => .fail f
  | ok a =>
    refine .bind (releaseAll_carried _ _ _) fun found => ?_
    cases found with
    | none => exact .pure a
    | some f => exact .fail f

/-- A program in the foreground, while a file is open that one of its streams is bound to. -/
theorem foreground_carried (invocation : Invocation) :
    Carried mode target (Group.foreground setting invocation)
      (Group.foreground setting (attach mode target invocation)) := by
  unfold Group.foreground Group.within
  exact .zoom (fun _ => rfl) (fun _ _ => rfl)
    (closing_carried (.bind (start_carried invocation) wait_carried))

/-- A program that is started with the streams of the shell shows them. -/
theorem inherits_of_mem_foreground {program : String} {args : List String} {host : Host}
    {m : Machine} {e : Event}
    (he : e ∈ (Group.foreground setting { program, args } host m).events) : e.Inherits := by
  obtain ⟨ok, a, tending, hevents, hattempt, htending⟩ :=
    Group.events_foreground setting { program, args } host m
  rw [hevents, List.mem_append] at he
  rcases he with he | he
  · exact hattempt.forall_mem (fun _ => trivial) (fun _ => trivial) (fun _ => trivial) ⟨rfl, rfl⟩
      (fun _ => ⟨rfl, rfl, rfl⟩) e he
  · have hkind := htending e he
    cases e <;> first | exact trivial | cases hkind

/-! ## Redirected commands -/

/-- The file is named, and the system opens it. -/
structure Opens (target : String) (mode : OpenMode) (host : Host) (m : Machine) : Prop where
  named : target ≠ ""
  clean : Machine.hasNull target = false
  granted : Machine.openFailure? host m target mode = none

theorem Opens.openFile_apply {host : Host} {m : Machine} (h : Opens target mode host m) :
    Machine.openFile target mode host m =
      ⟨.ok (), opened target m, [.openFile target mode true]⟩ := by
  simp [Machine.openFile, h.clean, h.granted, opened]

/-- With the file open, a program runs with its stream bound to it. -/
theorem Opens.run_apply {host : Host} {m : Machine} (h : Opens target mode host m)
    {command program : String} {args : List String}
    (hwords : Text.words command = program :: args) :
    let ran := Group.foreground setting { program, args } host m
    run setting command mode target host m =
      ⟨ran.outcome, opened target ran.state, .openFile target mode true ::
        .log .redirect s!"redirect {Text.quotedList (program :: args)} {mode.operator} {target}" ::
          (ran.events.map (Event.redirected mode target) ++ [.closeFile target])⟩ := by
  intro ran
  have hran : Group.foreground setting (attach mode target { program, args }) host
      (opened target m) = ran.carry (opened target) (Event.redirected mode target) :=
    foreground_carried { program, args } host m
  simp only [run, withFile, String.isEmpty_iff, h.named, if_false, Action.bind_apply,
    Action.mapFailure_apply, h.openFile_apply, Action.mapError_ok, hwords, Invocation.ofWords,
    Action.ensuring, Action.attempt_apply, Action.ofExcept_apply, Action.log_apply, hran,
    Machine.closeFile, Action.emit_apply, Result.andThen_ok, Result.carry, Result.after_mk]
  rfl

/-- What a redirected command comes to. -/
structure Replaced (setting : Setting) (command : String) (mode : OpenMode) (target : String)
    (host : Host) (s : Session) (r : Result Session Unit) : Prop where
  missing : target = "" → r = ⟨.error (missingFile mode), s, []⟩
  /-- A name with a null character does not reach the system, so no file is opened under it. -/
  null : Machine.hasNull target = true → r = ⟨.error .embeddedNull, s, []⟩
  refused : ∀ f reason, target ≠ "" → Machine.hasNull target = false →
    Machine.openFailure? host s.machine target mode = some f → f.systemReason? = some reason →
    r = ⟨.error (.shell .file s!"{target}: {reason}"), s, [.openFile target mode false]⟩
  blank : Opens target mode host s.machine → Text.words command = [] →
    r = ⟨.ok (), { s with machine := opened target s.machine },
      [.openFile target mode true, .closeFile target]⟩
  /-- Between the opening and the closing the program does what it does by itself, with its stream
      replaced. -/
  program : Opens target mode host s.machine → ∀ program args,
    Text.words command = program :: args →
    let ran := Group.foreground setting { program, args } host s.machine
    r = ⟨ran.outcome, { s with machine := opened target ran.state }, .openFile target mode true ::
        .log .redirect s!"redirect {Text.quotedList (program :: args)} {mode.operator} {target}" ::
          (ran.events.map (Event.redirected mode target) ++ [.closeFile target])⟩ ∧
      ∀ e ∈ ran.events, e.Inherits

end Redirect

open Redirect in
/-- A redirected command is its program with one stream replaced, whatever its name stands for in
    the shell. -/
theorem Shell.run_redirect_replaced (shell : Shell) (command : String) (mode : OpenMode)
    (target : String) (host : Host) (s : Session) :
    Replaced shell.setting command mode target host s
      (shell.run (.redirect command mode target) host s) := by
  have hrun : shell.run (.redirect command mode target) host s
      = (Redirect.run shell.setting command mode target host s.machine).mapState fun m =>
        { s with machine := m } := rfl
  rw [hrun]
  refine ⟨?_, ?_, ?_, ?_, ?_⟩
  · rintro rfl
    rfl
  · intro hnull
    have hnamed : target ≠ "" := by
      rintro rfl
      cases hnull
    simp [Redirect.run, withFile, hnamed, Machine.openFile, hnull, Failure.claimedFor,
      Failure.systemReason?, Failure.embeddedNull, Result.mapState]
  · intro f reason hnamed hnull hfailure hreason
    simp [Redirect.run, withFile, hnamed, Machine.openFile, hnull, hfailure, Failure.claimedFor,
      hreason, Result.mapState]
  · intro hopens hblank
    simp [Redirect.run, withFile, hopens.named, hopens.openFile_apply, hblank, Action.ensuring,
      Machine.closeFile, Result.mapState]
  · intro hopens program args hwords ran
    rw [hopens.run_apply hwords]
    exact ⟨rfl, fun e he => inherits_of_mem_foreground he⟩

open Redirect in
/-- A file that cannot be opened, and one that can: the name of a built-in is that of a program
    there, which fails after it has been started with its output bound to the file. -/
theorem Shell.run_redirect_replaced_builtin :
    let host : Host := { openFailures := fun path =>
      if path = "locked" then some (.system 13 "Permission denied") else none }
    let s : Session := { machine := { programs := fun _ => [.started { status := 3 }] } }
    let shell : Shell := {}
    let refused := shell.run (.redirect "cd /" .truncate "locked") host s
    let replaced := shell.run (.redirect "cd /" .truncate "f") host s
    Replaced {} "cd /" .truncate "locked" host s refused ∧
      refused.events = [.openFile "locked" .truncate false] ∧
      Replaced {} "cd /" .truncate "f" host s replaced ∧ Opens "f" .truncate host s.machine ∧
      Text.words "cd /" = ["cd", "/"] ∧ replaced.outcome.isOk = false ∧
      replaced.events = [.openFile "f" .truncate true,
        .log .redirect "redirect ['cd', '/'] > f",
        .spawn 101 ["cd", "/"] .inherited (.file "f") .inherited none,
        .log .process "spawned pid 101: ['cd', '/']", .wait 101 (some 3),
        .log .process "reaped pid 101 (status 3)", .closeFile "f"] := by
  intro host s shell refused replaced
  exact ⟨run_redirect_replaced shell "cd /" .truncate "locked" host s, by decide +kernel,
    run_redirect_replaced shell "cd /" .truncate "f" host s, ⟨by decide, by decide, rfl⟩,
    by decide +kernel, by decide +kernel, by decide +kernel⟩

end LineShell
