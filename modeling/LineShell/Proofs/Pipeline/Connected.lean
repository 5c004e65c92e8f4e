/-
  LineShell.Proofs.Pipeline.Connected

  Stages that are started, connected by pipes.

  A start does not notice what happens between it and the start before it: a pipe
  that is handed out, ends of pipes that are closed, a call of the observer.  So
  stages that by themselves are started one after another (`Granted`) are started
  in a pipeline too, each with the read end of the pipe before it and the write end
  of the pipe behind it (`Granted.connected`).
-/

import LineShell.Proofs.Group.Launched
import LineShell.Proofs.Pipeline.Order

namespace LineShell

/-- Whether a start has reached the system. -/
def Event.isLaunch : Event → Bool
  | .spawn .. | .spawnFailed .. => true
  | _ => false

/-- Whether the event has nothing to do with starting a stage or asking for a pipe. -/
def Event.isAside : Event → Bool
  | .spawn .. | .spawnFailed .. | .pipe .. | .pipeFailed => false
  | _ => true

namespace Pipeline

variable {setting : Setting} {host : Host} {m : Machine} {b : Block} {stages : List (List String)}
  {ps : List Process} {readEnd : Option Descriptor} {index : Nat}

/-! ## Starting the stages -/

/-- By themselves the stages are started as the given processes, one after another. -/
inductive Granted (setting : Setting) (host : Host) :
    Machine → List (List String) → List Process → Prop
  | nil (m : Machine) : Granted setting host m [] []
  | cons {m : Machine} {program : String} {args : List String} {rest : List (List String)}
      {p : Process} {ps : List Process}
      (hfirst : (Process.launch { program, args } setting.environment host m).outcome = .ok p)
      (hrest : Granted setting host
        (Process.launch { program, args } setting.environment host m).state rest ps) :
      Granted setting host m ((program :: args) :: rest) (p :: ps)

/-- What a stage reads from, given the pipes in order: the read end of the one before it. -/
def inputOf (readEnd : Option Descriptor) (pipes : List (Descriptor × Descriptor)) : Nat → Stream
  | 0 => streamOf readEnd
  | i + 1 => streamOf (pipes[i]?.map Prod.fst)

/-- What a stage writes into, given the pipes in order: the write end of the one behind it. -/
def outputOf (pipes : List (Descriptor × Descriptor)) (i : Nat) : Stream :=
  streamOf (pipes[i]?.map Prod.snd)

/-- The starts of stages that are connected by pipes. -/
def wiring (setting : Setting) (readEnd : Option Descriptor)
    (pipes : List (Descriptor × Descriptor)) (stages : List (List String)) (ps : List Process) :
    List Event :=
  (stages.zip ps).mapIdx fun i (argv, p) =>
    .spawn p.pid argv (inputOf readEnd pipes i) (outputOf pipes i) .inherited setting.environment

/-- Behind the first stage the wiring goes on from the read end of the first pipe. -/
theorem wiring_cons (argv : List String) (stages : List (List String)) (p : Process)
    (ps : List Process) (r w : Descriptor) (pipes : List (Descriptor × Descriptor)) :
    wiring setting readEnd ((r, w) :: pipes) (argv :: stages) (p :: ps) =
      .spawn p.pid argv (streamOf readEnd) (.descriptor w) .inherited setting.environment ::
        wiring setting (some r) pipes stages ps := by
  rw [wiring, List.zip_cons_cons, List.mapIdx_cons, wiring]
  congr 1
  congr 1
  funext i
  cases i <;> rfl

/-- A stage has been started as the process, with the pipe behind it that it writes into. -/
structure Linked (setting : Setting) (readEnd : Option Descriptor) (argv : List String)
    (p : Process) (pipe : Option (Descriptor × Descriptor)) (b : Block) (l : List Event)
    (b' : Block) : Prop where
  group : b'.group = { b.group with members := b.group.members ++ [p] }
  pipeCalls : b'.machine.pipeCalls = b.machine.pipeCalls + pipe.toList.length
  pipes : pipes l = pipe.toList
  granted : .pipeFailed ∉ l
  launches : l.filter Event.isLaunch =
    [.spawn p.pid argv (streamOf readEnd) (streamOf (pipe.map Prod.snd)) .inherited
      setting.environment]

/-- The block after a pipe has been handed out, if one has. -/
def piped (b : Block) (pipe : Option (Descriptor × Descriptor)) : Block :=
  { b with machine := { b.machine with
    pipeCalls := b.machine.pipeCalls + pipe.toList.length
    nextDescriptor := b.machine.nextDescriptor + 2 * pipe.toList.length } }

/-- The pipe behind a stage that is not the last, if the system grants it. -/
theorem connect_apply_of_granted (index : Nat) (readEnd : Option Descriptor) {last : Bool}
    (hpipe : last = false → host.pipeFailures b.machine.pipeCalls = none) :
    ∃ pipe : Option (Descriptor × Descriptor), pipe.isNone = last ∧
      connect index readEnd last host b = ⟨.ok (pipe.map Prod.fst, pipe.map Prod.snd),
        piped b pipe, pipe.toList.map fun (r, w) => .pipe r w⟩ := by
  cases last with
  | true =>
    refine ⟨none, rfl, ?_⟩
    simp [connect, piped]
  | false =>
    refine ⟨some (b.machine.nextDescriptor, b.machine.nextDescriptor + 1), rfl, ?_⟩
    rw [connect_apply, hpipe rfl]
    rfl

/-! ### The events of one stage -/

/-- Events on either side of an attempt to start a stage, behind the pipe that was handed out for
    it: the attempt is the only one, and so is the pipe. -/
theorem events_of_attempt (pipe : Option (Descriptor × Descriptor)) {before behind : List Event}
    {e : Event} (he : e.isLaunch = true) (haside : ∀ e' ∈ before ++ behind, e'.isAside = true) :
    let l := (pipe.toList.map fun (r, w) => .pipe r w) ++ (before ++ e :: behind)
    pipes l = pipe.toList ∧ .pipeFailed ∉ l ∧ l.filter Event.isLaunch = [e] := by
  have hpipes : ∀ l : List Event, (∀ e ∈ l, e.isAside = true) → pipes l = [] := by
    intro l hl
    refine List.filterMap_eq_nil_iff.mpr fun e he => ?_
    have haside := hl e he
    cases e <;> first | rfl | cases haside
  have hlaunches : ∀ l : List Event, (∀ e ∈ l, e.isAside = true) →
      l.filter Event.isLaunch = [] := by
    intro l hl
    refine List.filter_eq_nil_iff.mpr fun e he => ?_
    have haside := hl e he
    cases e <;> first | exact Bool.false_ne_true | cases haside
  obtain ⟨hbefore, hbehind⟩ := List.forall_mem_append.mp haside
  have hself : pipes (e :: behind) = pipes behind := by
    cases e <;> first | rfl | cases he
  refine ⟨?_, ?_, ?_⟩
  · rw [pipes_append, pipes_append, hpipes before hbefore, hself, hpipes behind hbehind]
    cases pipe <;> rfl
  · simp only [List.mem_append, List.mem_cons, List.mem_map, reduceCtorEq, and_false,
      exists_false, false_or, not_or]
    refine ⟨fun h => ?_, fun h => ?_, fun h => ?_⟩
    · cases hbefore _ h
    · cases h ▸ he
    · cases hbehind _ h
  · rw [List.filter_append, List.filter_append, hlaunches before hbefore,
      List.filter_cons_of_pos he, hlaunches behind hbehind]
    cases pipe <;> rfl

theorem isAside_of_mem_flushed {m : Machine} {e : Event} (he : e ∈ m.flushed) :
    e.isAside = true := by
  obtain ⟨text, rfl⟩ := Machine.mem_flushed he
  rfl

theorem isAside_of_mem_closes {fd : Option Descriptor} {e : Event} (he : e ∈ closes fd) :
    e.isAside = true := by
  cases fd with
  | none => cases he
  | some fd =>
    rw [List.mem_singleton.mp he]
    rfl

theorem isLaunch_of_tending {e : Event} (he : e.isTending = true) : e.isLaunch = false := by
  cases e <;> first | rfl | cases he

/-- Stages that are started and then tended: the pipes and the attempts to start a stage lie in
    the first part, and what is done about the processes in the second. -/
theorem StartTrace.append_tending {n : Descriptor} {invocations : List Invocation} {ok : Bool}
    {l tending : List Event} (h : StartTrace setting readEnd n invocations ok l)
    (htending : ∀ e ∈ tending, e.isTending = true) :
    pipes (l ++ tending) = pipes l ∧
      (l ++ tending).filter Event.isLaunch = l.filter Event.isLaunch ∧
      (l ++ tending).filter Event.isReaping = tending.filter Event.isReaping := by
  have hlaunches : tending.filter Event.isLaunch = [] :=
    List.filter_eq_nil_iff.mpr fun e he =>
      Bool.eq_false_iff.mp (isLaunch_of_tending (htending e he))
  have hreaping : l.filter Event.isReaping = [] :=
    List.filter_eq_nil_iff.mpr fun e he => Bool.eq_false_iff.mp (h.not_isReaping e he)
  refine ⟨?_, ?_, ?_⟩
  · rw [pipes_append, (abandoned_of_tending htending).2, List.append_nil]
  · rw [List.filter_append, hlaunches, List.append_nil]
  · rw [List.filter_append, hreaping, List.nil_append]

/-- A stage that the system starts and grants a pipe for, unless it is the last. -/
theorem startStages_cons_of_launch (hsilent : setting.Silent) {program : String}
    {args : List String} {rest : List Invocation} {p : Process}
    (hlaunch : (Process.launch { program, args } setting.environment host m).outcome = .ok p)
    (halike : m.Alike b.machine)
    (hpipe : rest ≠ [] → host.pipeFailures b.machine.pipeCalls = none) (index : Nat)
    (readEnd : Option Descriptor) :
    ∃ (pipe : Option (Descriptor × Descriptor)) (b' : Block) (l : List Event),
      pipe.isNone = rest.isEmpty ∧
      startStages setting index readEnd ({ program, args } :: rest) host b =
        (startStages setting (index + 1) (pipe.map Prod.fst) rest host b').after l ∧
      Linked setting readEnd (program :: args) p pipe b l b' ∧
      (Process.launch { program, args } setting.environment host m).state.Alike b'.machine := by
  have hgranted : rest.isEmpty = false → host.pipeFailures b.machine.pipeCalls = none :=
    fun hrest => hpipe (List.isEmpty_eq_false_iff.mp hrest)
  obtain ⟨pipe, hnone, hconnect⟩ := connect_apply_of_granted index readEnd hgranted
  -- The pipe makes no difference to the start.
  have halike : m.Alike (piped b pipe).machine := ⟨halike.programs, halike.nextPid⟩
  obtain ⟨m', message, hstart, hsteady, hlater⟩ := Group.start_of_launch hsilent hlaunch halike
    (streamOf readEnd) (streamOf (pipe.map Prod.snd))
  have hstage := startStage_apply setting index { program, args } readEnd (pipe.map Prod.snd)
    (pipe.map Prod.fst) host (piped b pipe)
  simp only [hstart, Action.mapError_ok, Except.isOk, Except.toBool, if_true, List.append_nil]
    at hstage
  have haside : ∀ e ∈ (piped b pipe).machine.flushed ++ (.log .process message ::
      setting.notices (.spawned p.pid (program :: args)) ++ (closes readEnd ++
        closes (pipe.map Prod.snd))), e.isAside = true := by
    intro e he
    simp only [List.mem_append, List.mem_cons] at he
    rcases he with he | (rfl | he) | he | he
    · exact isAside_of_mem_flushed he
    · rfl
    · rw [Setting.mem_notices he]
      rfl
    · exact isAside_of_mem_closes he
    · exact isAside_of_mem_closes he
  obtain ⟨hpipes, hgranted, hlaunches⟩ := events_of_attempt pipe (e := .spawn p.pid
    (program :: args) (streamOf readEnd) (streamOf (pipe.map Prod.snd)) .inherited
    setting.environment) rfl haside
  rw [startStages_cons, Action.bind_apply, hconnect, Result.andThen_ok, Action.bind_apply, hstage,
    Result.andThen_ok, ← Result.after_append, List.append_assoc, List.append_assoc,
    List.cons_append]
  exact ⟨pipe, _, _, hnone, rfl, ⟨rfl, hsteady.pipeCalls, hpipes, hgranted, hlaunches⟩, hlater⟩

/-- All stages have been started, connected by pipes. -/
structure Connected (setting : Setting) (readEnd : Option Descriptor) (stages : List (List String))
    (ps : List Process) (b : Block) (r : Result Block Unit) : Prop where
  outcome : r.outcome = .ok ()
  group : r.state.group = { b.group with members := b.group.members ++ ps }
  pipes : (pipes r.events).length = stages.length - 1
  granted : .pipeFailed ∉ r.events
  launches : r.events.filter Event.isLaunch
    = wiring setting readEnd (Pipeline.pipes r.events) stages ps

/-- One more stage before those that have been started. -/
theorem Connected.cons {argv : List String} {p : Process}
    {pipe : Option (Descriptor × Descriptor)} {b' : Block} {l : List Event} {r : Result Block Unit}
    (hrest : Connected setting (pipe.map Prod.fst) stages ps b' r)
    (hlinked : Linked setting readEnd argv p pipe b l b') (hpipe : pipe.isNone = stages.isEmpty) :
    Connected setting readEnd (argv :: stages) (p :: ps) b (r.after l) where
  outcome := hrest.outcome
  group := by
    rw [Result.state_after, hrest.group, hlinked.group, List.append_assoc]
    rfl
  pipes := by
    rw [Result.events_after, pipes_append, hlinked.pipes, List.length_append, hrest.pipes]
    cases pipe <;> cases stages <;> simp at hpipe ⊢
    omega
  granted := by
    rw [Result.events_after, List.mem_append, not_or]
    exact ⟨hlinked.granted, hrest.granted⟩
  launches := by
    have hlater := hrest.pipes
    rw [Result.events_after, List.filter_append, pipes_append, hlinked.launches, hlinked.pipes,
      hrest.launches]
    cases pipe with
    | some ends =>
      show _ = wiring setting readEnd ((ends.1, ends.2) :: _) (argv :: stages) (p :: ps)
      rw [wiring_cons]
      rfl
    -- The last stage has no pipe behind it.
    | none =>
      obtain rfl : stages = [] := List.isEmpty_iff.mp hpipe.symm
      rw [List.length_eq_zero_iff.mp hlater]
      rfl

namespace Granted

/-- Stages that are started are not empty. -/
theorem mapM_ofWords (h : Granted setting host m stages ps) :
    ∃ invocations, stages.mapM Invocation.ofWords = .ok invocations ∧
      invocations.length = stages.length ∧ ps.length = stages.length := by
  induction h with
  | nil => exact ⟨[], rfl, rfl, rfl⟩
  | @cons m program args rest p ps hfirst hrest ih =>
    obtain ⟨invocations, hinvocations, hlength, hstarted⟩ := ih
    refine ⟨{ program, args } :: invocations, ?_, congrArg (· + 1) hlength,
      congrArg (· + 1) hstarted⟩
    rw [List.mapM_cons, hinvocations]
    rfl

theorem ne_nil (h : Granted setting host m stages ps) : ∀ argv ∈ stages, argv ≠ [] := by
  induction h with
  | nil => exact fun _ hargv => nomatch hargv
  | cons _ _ ih => exact List.forall_mem_cons.mpr ⟨List.cons_ne_nil _ _, ih⟩

/-- Stages that by themselves are started are started connected by pipes. -/
theorem connected (hsilent : setting.Silent) (h : Granted setting host m stages ps)
    {invocations : List Invocation} (hstages : stages.mapM Invocation.ofWords = .ok invocations)
    (index : Nat) (readEnd : Option Descriptor) (b : Block) (halike : m.Alike b.machine)
    (hpipes : ∀ i, i + 1 < stages.length → host.pipeFailures (b.machine.pipeCalls + i) = none) :
    Connected setting readEnd stages ps b
      (startStages setting index readEnd invocations host b) := by
  induction h generalizing invocations index readEnd b with
  | nil =>
    obtain rfl : [] = invocations := Except.ok.inj hstages
    rw [startStages, closeEnd_apply]
    obtain ⟨-, hpipes⟩ := abandoned_closes readEnd
    refine ⟨rfl, by simp, congrArg List.length hpipes, ?_, ?_⟩
    · cases readEnd <;> simp [closes]
    · cases readEnd <;> rfl
  | @cons m program args rest p ps hfirst hrest ih =>
    obtain ⟨_, _, later, heq, hlater, rfl⟩ := mapM_ofWords_cons hstages
    cases heq
    have hpipe : later ≠ [] → host.pipeFailures b.machine.pipeCalls = none := by
      intro hne
      have hpositive := List.length_pos_iff.mpr (mt (eq_nil_iff_of_mapM_ofWords hlater).mpr hne)
      exact hpipes 0 (Nat.succ_lt_succ hpositive)
    obtain ⟨pipe, b', l, hnone, hrun, hlinked, halike⟩ :=
      startStages_cons_of_launch hsilent hfirst halike hpipe index readEnd
    have hempty : pipe.isNone = rest.isEmpty := by
      rw [hnone, Bool.eq_iff_iff, List.isEmpty_iff, List.isEmpty_iff,
        eq_nil_iff_of_mapM_ofWords hlater]
    -- The calls for pipes count on behind the first one.
    have hconnected := ih hlater (index + 1) (pipe.map Prod.fst) b' halike fun i hi => by
      rw [hlinked.pipeCalls, Nat.add_assoc]
      refine hpipes _ ?_
      rw [List.length_cons]
      cases pipe <;> simp at hempty ⊢ <;> omega
    show Connected setting readEnd _ _ b (startStages setting index readEnd
      ({ program, args } :: later) host b)
    rw [hrun]
    exact hconnected.cons hlinked hempty

end Granted

end Pipeline

end LineShell
