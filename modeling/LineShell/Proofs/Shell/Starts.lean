/-
  LineShell.Proofs.Shell.Starts

  Which programs a tree has started, and with what.

  Programs are started in four places: for a plain command without a handler, for the
  command that lists processes, for a redirected command and for the stages of a
  pipeline.  A leaf stands for launches: the words of a program, or of one for each of
  its stages, in their order.  Whatever the world answers, every start is made for a
  launch of its own, in the order of the launches, with the words of the launch, the
  environment of the shell and its error stream; a plain command has all three streams
  of the shell (`run_starts`).  Launches whose leaf is not run, or which the system
  refuses, are left out, and nothing is started twice.
-/

import LineShell.Proofs.Shell.Groups
import LineShell.Proofs.Shell.Traced

namespace LineShell

/-- A program that a leaf has started. -/
structure Launch where
  argv : List String
  /-- Whether it reads from and writes to what the shell does. -/
  inherits : Bool
  deriving DecidableEq

/-- What a leaf has started, in order, if it is run to its end. -/
def Tree.launches (commands : Table Handler) : Tree → List Launch
  | .command _ [] => []
  | .command _ (name :: args) =>
    match commands.find? name with
    | none => [⟨name :: args, true⟩]
    | some (.builtin .ps) => [⟨"ps" :: if args.isEmpty then ["aux"] else args, true⟩]
    | some _ => []
  | .redirect source _ _ => [⟨Text.words source, false⟩]
  | .pipeline stages => stages.map (⟨·, false⟩)
  | .conditional _ => []

/-- The start of a process is made for a launch. -/
inductive StartedFor (setting : Setting) : Event → Launch → Prop
  | intro (launch : Launch) (pid : Int) (stdin stdout : Stream)
      (h : launch.inherits = true → stdin = .inherited ∧ stdout = .inherited) :
      StartedFor setting
        (.spawn pid launch.argv stdin stdout .inherited setting.environment) launch

variable {setting : Setting} {host : Host}

/-! ## The places where programs are started -/

/-- An attempt starts nothing but what it is an attempt at. -/
theorem Group.Attempt.startedFor {invocation : Invocation} {ok : Bool} {a : List Event}
    (h : Group.Attempt setting invocation ok a) (hstderr : invocation.stderr = .inherited)
    (inherits : Bool)
    (hinherits : inherits = true → invocation.stdin = .inherited ∧ invocation.stdout = .inherited) :
    List.SublistForall₂ (StartedFor setting) (a.filter Event.isStart)
      [⟨invocation.argv, inherits⟩] := by
  rcases h.starts with ⟨-, hnone⟩ | ⟨pid, hone⟩
  · rw [hnone]
    exact .nil
  · rw [hone, hstderr]
    exact .cons (.intro ⟨invocation.argv, inherits⟩ pid _ _ hinherits) .nil

theorem Group.foreground_startedFor {invocation : Invocation}
    (hstderr : invocation.stderr = .inherited) (inherits : Bool)
    (hinherits : inherits = true → invocation.stdin = .inherited ∧ invocation.stdout = .inherited) :
    (foreground setting invocation).Meets host
      (Tracing Event.isStart (StartedFor setting) [⟨invocation.argv, inherits⟩]) := by
  intro m
  obtain ⟨ok, a, tending, hevents, ha, htending⟩ := events_foreground setting invocation host m
  rw [Tracing, hevents, List.filter_append, filter_isStart_of_tending htending, List.append_nil]
  exact ha.startedFor hstderr inherits hinherits

/-- The stages of a pipeline are started in their order, up to one that is not. -/
theorem Pipeline.StartTrace.startedFor {readEnd : Option Descriptor} {n : Descriptor}
    {stages : List Invocation} {ok : Bool} {l : List Event}
    (h : StartTrace setting readEnd n stages ok l)
    (hstderr : ∀ stage ∈ stages, stage.stderr = .inherited) :
    List.SublistForall₂ (StartedFor setting) (l.filter Event.isStart)
      (stages.map fun stage => ⟨stage.argv, false⟩) := by
  -- The words of a stage stay what they are when it is given its streams.
  have hattempt : ∀ {stage : Invocation} {stdin stdout : Stream} {ok : Bool} {a : List Event},
      stage.stderr = .inherited →
      Group.Attempt setting { stage with stdin := stdin, stdout := stdout } ok a →
      List.SublistForall₂ (StartedFor setting) (a.filter Event.isStart) [⟨stage.argv, false⟩] :=
    fun hstderr ha => ha.startedFor hstderr false (absurd · Bool.false_ne_true)
  induction h with
  | done =>
    rw [filter_isStart_closes]
    exact .nil
  | @noPipe readEnd =>
    rw [List.filter_cons_of_neg Bool.false_ne_true, filter_isStart_closes]
    exact .nil
  | last ha =>
    rw [List.filter_append, filter_isStart_closes, List.append_nil]
    exact hattempt (hstderr _ List.mem_cons_self) ha
  | stopped _ ha =>
    rw [filter_isStart_stage]
    exact sublistForall₂_append (hattempt (hstderr _ List.mem_cons_self) ha) .nil
  | started _ ha _ ih =>
    rw [filter_isStart_stage]
    exact sublistForall₂_append (hattempt (hstderr _ List.mem_cons_self) ha)
      (ih fun stage hstage => hstderr stage (List.mem_cons_of_mem _ hstage))

theorem Pipeline.run_startedFor (stages : List (List String)) :
    (run setting stages).Meets host
      (Tracing Event.isStart (StartedFor setting) (stages.map (⟨·, false⟩))) := by
  intro m
  rw [Tracing]
  rcases events_run setting stages host m with
    hrun | ⟨invocations, ok, starts, tending, hstages, hevents, hstarts, htending, -⟩
  · rw [hrun]
    exact .nil
  · obtain ⟨hargv, hstderr⟩ := of_mapM_ofWords hstages
    rw [hevents, List.filter_append, filter_isStart_of_tending htending, List.append_nil, ← hargv,
      List.map_map]
    exact hstarts.startedFor hstderr

theorem Redirect.run_startedFor (source : String) (mode : OpenMode) (target : String) :
    (run setting source mode target).Meets host
      (Tracing Event.isStart (StartedFor setting) [⟨Text.words source, false⟩]) := by
  intro m
  have hspec := run_spec setting source mode target host m
  generalize run setting source mode target host m = r at hspec
  rw [Tracing]
  cases hspec with
  | unopened f hl _ => rcases hl with rfl | rfl <;> exact .nil
  | blank => exact .nil
  | @program invocation message _ hwords hr =>
    obtain ⟨-, -, hstderr⟩ := Invocation.streams_of_ofWords hwords
    have hstarts : (Group.foreground setting (attach mode target invocation)).Meets host _ :=
      Group.foreground_startedFor (by rw [stderr_attach, hstderr]) false
        (absurd · Bool.false_ne_true)
    have hstarts := hstarts (opened target m)
    rw [Tracing, hr, argv_attach, Invocation.argv_of_ofWords hwords] at hstarts
    -- Opening and closing the file starts nothing.
    simpa [Event.isStart] using hstarts

namespace Shell

variable {shell : Shell}

/-- Listing processes is the one built-in command that starts a program. -/
theorem builtin_startedFor (command : Builtin) (args : List String) (text : String) :
    let listing : Launch := ⟨"ps" :: if args.isEmpty then ["aux"] else args, true⟩
    (command.run setting args text).Meets host
      (Tracing Event.isStart (StartedFor setting) (if command = .ps then [listing] else [])) := by
  intro listing
  by_cases hps : command = .ps
  · rw [if_pos hps, hps]
    exact Group.foreground_startedFor rfl true fun _ => ⟨rfl, rfl⟩
  · rw [if_neg hps]
    refine Tracing.of_none fun m => List.filter_eq_nil_iff.mpr fun e he hstart => ?_
    have hcalm := (builtin_calm setting args text hps host m).1 e he
    cases e <;> simp_all [Event.isStart, Event.isCalm]

/-- Each program is started for a launch of its own, in the order of the launches. -/
theorem run_starts (hbuiltins : ∀ name handler, shell.commands.find? name = some handler →
      ∃ command, handler = .builtin command) (t : Tree) (host : Host) (s : Session) :
    List.SublistForall₂ (StartedFor shell.setting)
      ((shell.run t host s).events.filter Event.isStart)
      (t.leaves.flatMap (Tree.launches shell.commands)) := by
  refine runTree_tracing (fun _ _ => rfl) t (fun leaf hleaf => ?_) s
  cases leaf with
  | command text words =>
    rw [runTree]
    cases words with
    | nil => exact Tracing.of_none fun _ => rfl
    | cons name args =>
      rw [runCommand, Tree.launches]
      cases hfind : shell.commands.find? name with
      | none => exact .inSession (Group.foreground_startedFor rfl true fun _ => ⟨rfl, rfl⟩)
      | some handler =>
        obtain ⟨command, rfl⟩ := hbuiltins name handler hfind
        have hstarts : (command.run shell.setting args text).Meets host _ :=
          builtin_startedFor command args text
        cases command <;> exact .inSession hstarts
  | redirect source mode target =>
    rw [runTree]
    exact .inSession (Redirect.run_startedFor source mode target)
  | pipeline stages =>
    rw [runTree]
    exact .inSession (Pipeline.run_startedFor stages)
  | conditional groups => exact absurd hleaf (Tree.conditional_notMem_leaves t groups)

/-- A pipeline that breaks off, an alternative that takes its place, one that is not needed any
    more, and a redirected command. -/
theorem run_starts_conditional :
    let env : Option Environment := some [("A", "1")]
    let shell : Shell :=
      { setting := { environment := env }, commands := { entries := [("who", .builtin .ps)] } }
    let s : Session := { machine := { programs := fun name =>
      if name = "missing" then [] else [.started {}] } }
    let t : Tree := .conditional
      [[.pipeline [["cat", "f"], ["missing"], ["sort"]], .command "who" ["who"],
        .command "ps" ["ps", "x"]], [.redirect " cat  g" .truncate "h"]]
    let starts := (shell.run t {} s).events.filter Event.isStart
    let launches := t.leaves.flatMap (Tree.launches shell.commands)
    (∀ name handler, shell.commands.find? name = some handler →
      ∃ command, handler = .builtin command) ∧
    List.SublistForall₂ (StartedFor shell.setting) starts launches ∧
    launches = [⟨["cat", "f"], false⟩, ⟨["missing"], false⟩, ⟨["sort"], false⟩,
      ⟨["ps", "aux"], true⟩, ⟨["ps", "x"], true⟩, ⟨["cat", "g"], false⟩] ∧
    starts = [.spawn 101 ["cat", "f"] .inherited (.descriptor 11) .inherited env,
      .spawn 102 ["ps", "aux"] .inherited .inherited .inherited env,
      .spawn 103 ["cat", "g"] .inherited (.file "h") .inherited env] := by
  intro env shell s t starts launches
  have hbuiltins : ∀ name handler, shell.commands.find? name = some handler →
      ∃ command, handler = .builtin command := by
    intro name handler hfind
    cases List.mem_singleton.mp (Table.mem_entries_of_find? hfind)
    exact ⟨.ps, rfl⟩
  exact ⟨hbuiltins, run_starts hbuiltins t {} s, by decide +kernel, by decide +kernel⟩

end Shell

end LineShell
