/-
  LineShell.Proofs.Pipeline.Undone

  Pipelines that cannot be fully started.

  A stage is refused when the system has no pipe for it, or does not start it.
  What has been started before it is then undone: in the order of the stages each
  process that still runs is terminated, and each is waited for.  Nothing is
  attempted for the stages behind, and the refusal is the failure of the pipeline,
  whatever becomes of the processes (`run_undone`).  A pipeline with an empty stage
  does nothing at all.
-/

import LineShell.Proofs.Group.Turns
import LineShell.Proofs.Pipeline.Connected

namespace LineShell.Pipeline

variable {setting : Setting} {host : Host} {m : Machine} {b : Block} {stages : List (List String)}
  {ps : List Process} {readEnd : Option Descriptor} {index calls : Nat}

/-! ## Refusals -/

/-- How a stage is refused. -/
inductive Refusal
  /-- There is no pipe to be had behind the stage. -/
  | pipe (f : Failure)
  /-- The stage is not started. -/
  | start (argv : List String) (f : Failure)

namespace Refusal

/-- What the failure of the pipeline is put down to. -/
def cause : Refusal → Failure
  | pipe f => f
  | start argv f => f.claimedFor .launch (argv.headD "")

/-- The status of the pipeline. -/
def status : Refusal → Int
  | pipe _ => 1
  | start .. => 127

/-- How many pipes have been handed out in the end, where the stage at a position of so many
    stages is refused. -/
def granted (position count : Nat) : Refusal → Nat
  | pipe _ => position
  -- Behind the last stage there is no pipe.
  | start .. => min (position + 1) (count - 1)

/-- How many calls for a pipe fail. -/
def refused : Refusal → Nat
  | pipe _ => 1
  | start .. => 0

/-- The attempts to start the stage, given its streams. -/
def launches (stdin stdout : Stream) : Refusal → List Event
  | pipe _ => []
  | start argv _ => [.spawnFailed argv stdin stdout]

end Refusal

/-- By themselves the first stages are started as the given processes, one after another, and the
    next one is refused by the system, `calls` being how often a pipe has been asked for before. -/
inductive Refused (setting : Setting) (host : Host) :
    (calls : Nat) → Machine → List (List String) → List Process → Refusal → Prop
  | pipe {calls : Nat} {m : Machine} {stage : List String} {rest : List (List String)} {f : Failure}
      (hrest : rest ≠ []) (hpipe : host.pipeFailures calls = some f) (hf : f.isSystem = true) :
      Refused setting host calls m (stage :: rest) [] (.pipe f)
  | start {calls : Nat} {m : Machine} {program : String} {args : List String}
      {rest : List (List String)} {f : Failure}
      (hpipe : rest ≠ [] → host.pipeFailures calls = none)
      (hlaunch : (Process.launch { program, args } setting.environment host m).outcome = .error f)
      (hf : f.isSystem = true) :
      Refused setting host calls m ((program :: args) :: rest) [] (.start (program :: args) f)
  | later {calls : Nat} {m : Machine} {program : String} {args : List String}
      {rest : List (List String)} {p : Process} {ps : List Process} {refusal : Refusal}
      (hpipe : host.pipeFailures calls = none)
      (hfirst : (Process.launch { program, args } setting.environment host m).outcome = .ok p)
      (hrest : Refused setting host (calls + 1)
        (Process.launch { program, args } setting.environment host m).state rest ps refusal) :
      Refused setting host calls m ((program :: args) :: rest) (p :: ps) refusal

theorem Refused.ne_nil {refusal : Refusal} (h : Refused setting host calls m stages ps refusal) :
    stages ≠ [] := by
  cases h <;> exact List.cons_ne_nil _ _

/-- The stage that is refused is the one behind those that are started. -/
theorem Refused.getElem? {refusal : Refusal}
    (h : Refused setting host calls m stages ps refusal) :
    ∃ stage, stages[ps.length]? = some stage ∧
      ∀ argv f, refusal = .start argv f → argv = stage := by
  induction h with
  | pipe => exact ⟨_, rfl, nofun⟩
  | start =>
    refine ⟨_, rfl, ?_⟩
    rintro argv f ⟨⟩
    rfl
  | later _ _ _ ih => exact ih

/-- A program that the system does not start is a failure of the launch. -/
theorem Refused.cause_eq {refusal : Refusal} (h : Refused setting host calls m stages ps refusal) :
    (∃ f, refusal = .pipe f ∧ f.isSystem = true ∧ refusal.cause = f) ∨
      ∃ argv f message, refusal = .start argv f ∧ refusal.cause = .shell .launch message := by
  induction h with
  | pipe _ _ hf => exact .inl ⟨_, rfl, hf, rfl⟩
  | @start _ _ program args _ f _ _ hf =>
    obtain ⟨reason, hreason⟩ := Option.isSome_iff_exists.mp hf
    refine .inr ⟨_, f, s!"{program}: {reason}", rfl, ?_⟩
    simp only [Refusal.cause, Failure.claimedFor, hreason]
    rfl
  | later _ _ _ ih => exact ih

/-- A failure of the system has no status of its own. -/
theorem Refused.exitStatus? {refusal : Refusal}
    (h : Refused setting host calls m stages ps refusal) (index : Int) :
    (Failure.stage index refusal.cause).exitStatus? = some refusal.status := by
  rcases h.cause_eq with ⟨f, rfl, hf, hcause⟩ | ⟨argv, f, message, rfl, hcause⟩
  · rw [hcause]
    cases f <;> first | rfl | cases hf
  · rw [hcause]
    rfl

/-! ## Starting the stages -/

/-- The first stages have been started and the next one has been refused, connected by pipes up to
    there. -/
structure Halted (setting : Setting) (readEnd : Option Descriptor) (stages : List (List String))
    (ps : List Process) (refusal : Refusal) (index : Nat) (b : Block) (r : Result Block Unit) :
    Prop where
  outcome : r.outcome = .error (.stage (index + ps.length : Nat) refusal.cause)
  group : r.state.group = { b.group with members := b.group.members ++ ps }
  pipes : (pipes r.events).length = refusal.granted ps.length stages.length
  refused : r.events.count .pipeFailed = refusal.refused
  launches : r.events.filter Event.isLaunch
    = wiring setting readEnd (Pipeline.pipes r.events) stages ps ++
      refusal.launches (inputOf readEnd (Pipeline.pipes r.events) ps.length)
        (outputOf (Pipeline.pipes r.events) ps.length)

/-- One more stage before those that have been started. -/
theorem Halted.cons {refusal : Refusal} {argv : List String} {p : Process}
    {ends : Descriptor × Descriptor} {b' : Block} {l : List Event} {r : Result Block Unit}
    (hrest : Halted setting (some ends.1) stages ps refusal (index + 1) b' r)
    (hlinked : Linked setting readEnd argv p (some ends) b l b') (hne : stages ≠ []) :
    Halted setting readEnd (argv :: stages) (p :: ps) refusal index b (r.after l) where
  outcome := by
    rw [Result.outcome_after, hrest.outcome, List.length_cons, Nat.add_assoc, Nat.add_comm 1]
  group := by
    rw [Result.state_after, hrest.group, hlinked.group, List.append_assoc]
    rfl
  pipes := by
    have hpositive := List.length_pos_iff.mpr hne
    rw [Result.events_after, pipes_append, hlinked.pipes, List.length_append, hrest.pipes]
    cases refusal <;> simp only [Refusal.granted, Option.toList_some, List.length_cons,
      List.length_nil] <;> omega
  refused := by
    rw [Result.events_after, List.count_append, List.count_eq_zero.mpr hlinked.granted,
      hrest.refused, Nat.zero_add]
  launches := by
    -- What the stage reads from that is refused lies one pipe further on.
    have hinput : ∀ i, inputOf readEnd (ends :: Pipeline.pipes r.events) (i + 1)
        = inputOf (some ends.1) (Pipeline.pipes r.events) i := by
      intro i
      cases i <;> rfl
    rw [Result.events_after, List.filter_append, pipes_append, hlinked.launches, hlinked.pipes,
      hrest.launches]
    show _ = wiring setting readEnd ((ends.1, ends.2) :: Pipeline.pipes r.events) (argv :: stages)
        (p :: ps) ++
      refusal.launches (inputOf readEnd (ends :: Pipeline.pipes r.events) (ps.length + 1)) _
    rw [wiring_cons, hinput]
    rfl

/-- A stage that there is no pipe for: its input is closed. -/
theorem startStages_cons_of_noPipe {f : Failure} {stage : Invocation} {rest : List Invocation}
    (hrest : rest ≠ []) (hpipe : host.pipeFailures b.machine.pipeCalls = some f)
    (hf : f.isSystem = true) (index : Nat) (readEnd : Option Descriptor) :
    startStages setting index readEnd (stage :: rest) host b =
      ⟨.error (.stage index f),
        { b with machine := { b.machine with pipeCalls := b.machine.pipeCalls + 1 } },
        .pipeFailed :: closes readEnd⟩ := by
  have hlast : rest.isEmpty = false := by simpa using hrest
  have hreason : f.systemReason?.isSome = true := hf
  rw [startStages_cons, hlast, Action.bind_apply, connect_apply, hpipe]
  simp only [hreason, if_true, Result.andThen_error]

/-- A stage that is not started: one attempt is made, and the pipe behind the stage is the only one
    that is handed out. -/
theorem startStages_cons_of_refused {program : String} {args : List String}
    {rest : List Invocation} {f : Failure}
    (hlaunch : (Process.launch { program, args } setting.environment host m).outcome = .error f)
    (hf : f.isSystem = true) (halike : m.Alike b.machine)
    (hpipe : rest ≠ [] → host.pipeFailures b.machine.pipeCalls = none) (index : Nat)
    (readEnd : Option Descriptor) :
    ∃ (pipe : Option (Descriptor × Descriptor)) (m' : Machine) (l : List Event),
      pipe.isNone = rest.isEmpty ∧
      startStages setting index readEnd ({ program, args } :: rest) host b =
        ⟨.error (.stage index (f.claimedFor .launch program)), { b with machine := m' }, l⟩ ∧
      pipes l = pipe.toList ∧ .pipeFailed ∉ l ∧ l.filter Event.isLaunch =
        [.spawnFailed (program :: args) (streamOf readEnd) (streamOf (pipe.map Prod.snd))] := by
  have hgranted : rest.isEmpty = false → host.pipeFailures b.machine.pipeCalls = none :=
    fun hrest => hpipe (List.isEmpty_eq_false_iff.mp hrest)
  obtain ⟨pipe, hnone, hconnect⟩ := connect_apply_of_granted index readEnd hgranted
  have halike : m.Alike (piped b pipe).machine := ⟨halike.programs, halike.nextPid⟩
  obtain ⟨m', hstart⟩ := Group.start_of_refused hlaunch hf halike (streamOf readEnd)
    (streamOf (pipe.map Prod.snd))
  have hstage := startStage_apply setting index { program, args } readEnd (pipe.map Prod.snd)
    (pipe.map Prod.fst) host (piped b pipe)
  obtain ⟨reason, hreason⟩ := Option.isSome_iff_exists.mp hf
  simp only [hstart, Action.mapError_error, Except.isOk, Except.toBool, Bool.false_eq_true,
    if_false, Failure.claimedFor, hreason, startFailure] at hstage
  -- What was meant for the stage is closed, and the pipe behind it.
  have haside : ∀ e ∈ (piped b pipe).machine.flushed ++ (closes readEnd ++
      (closes (pipe.map Prod.snd) ++ closes (pipe.map Prod.fst))), e.isAside = true := by
    intro e he
    simp only [List.mem_append] at he
    rcases he with he | he | he | he
    · exact isAside_of_mem_flushed he
    · exact isAside_of_mem_closes he
    · exact isAside_of_mem_closes he
    · exact isAside_of_mem_closes he
  rw [startStages_cons, Action.bind_apply, hconnect, Result.andThen_ok, Action.bind_apply, hstage,
    Result.andThen_error, List.append_assoc, List.append_assoc, List.append_assoc]
  simp only [Failure.claimedFor, hreason]
  exact ⟨pipe, m', _, hnone, rfl, events_of_attempt pipe rfl haside⟩

/-- Stages are started up to the one that is refused, connected by pipes. -/
theorem Refused.halted (hsilent : setting.Silent) {refusal : Refusal}
    (h : Refused setting host calls m stages ps refusal) {invocations : List Invocation}
    (hstages : stages.mapM Invocation.ofWords = .ok invocations) (index : Nat)
    (readEnd : Option Descriptor) (b : Block) (halike : m.Alike b.machine)
    (hcalls : calls = b.machine.pipeCalls) :
    Halted setting readEnd stages ps refusal index b
      (startStages setting index readEnd invocations host b) := by
  induction h generalizing invocations index readEnd b with
  | pipe hrest hpipe hf =>
    obtain ⟨program, args, later, rfl, hlater, rfl⟩ := mapM_ofWords_cons hstages
    subst hcalls
    rw [startStages_cons_of_noPipe (mt (eq_nil_iff_of_mapM_ofWords hlater).mp hrest) hpipe hf]
    refine ⟨rfl, by simp, ?_, ?_, ?_⟩ <;> cases readEnd <;> rfl
  | @start calls m program args rest f hpipe hlaunch hf =>
    obtain ⟨_, _, later, heq, hlater, rfl⟩ := mapM_ofWords_cons hstages
    cases heq
    subst hcalls
    obtain ⟨pipe, m', l, hnone, hrun, hpipes, hgranted, hlaunches⟩ :=
      startStages_cons_of_refused hlaunch hf halike
        (fun hne => hpipe (mt (eq_nil_iff_of_mapM_ofWords hlater).mpr hne)) index readEnd
    rw [hrun]
    refine ⟨rfl, by simp, ?_, List.count_eq_zero.mpr hgranted, ?_⟩
    -- There is a pipe behind the stage unless it is the last.
    · have hlast : pipe.isNone = true ↔ rest = [] := by
        rw [hnone, List.isEmpty_iff, eq_nil_iff_of_mapM_ofWords hlater]
      rw [hpipes]
      cases pipe <;> cases rest <;> simp [Refusal.granted] at hlast ⊢
    · rw [hlaunches, hpipes]
      cases pipe <;> rfl
  | @later calls m program args rest p ps refusal hpipe hfirst hrest ih =>
    obtain ⟨_, _, later, heq, hlater, rfl⟩ := mapM_ofWords_cons hstages
    cases heq
    subst hcalls
    obtain ⟨pipe, b', l, hnone, hrun, hlinked, halike⟩ :=
      startStages_cons_of_launch hsilent hfirst halike (fun _ => hpipe) index readEnd
    -- There is a stage behind this one, so there is a pipe between them.
    have hne : later ≠ [] := mt (eq_nil_iff_of_mapM_ofWords hlater).mp hrest.ne_nil
    obtain ⟨ends, rfl⟩ : ∃ ends, pipe = some ends := by
      rw [← Option.isSome_iff_exists, ← Option.isNone_eq_false_iff, hnone]
      exact List.isEmpty_eq_false_iff.mpr hne
    rw [hrun]
    exact (ih hlater (index + 1) (some ends.1) b' halike hlinked.pipeCalls.symm).cons hlinked
      hrest.ne_nil

/-! ## Undoing the start -/

/-- What is done about a process whose pipeline is given up. -/
def undoing (p : Process) : List Event :=
  if p.running then [.terminate p.pid, .wait p.pid (some p.killedStatus)]
  else [.wait p.pid (some p.status)]

theorem filter_isReaping_turn (setting : Setting) (t : Group.Turn) :
    (t.events setting).filter Event.isReaping =
      (if t.terminates then [.terminate t.member.pid] else []) ++
        Process.waits t.member.pid t.waited.status t.member.interrupts := by
  have hnotices : (setting.notices t.notice).filter Event.isReaping = [] := by
    refine List.filter_eq_nil_iff.mpr fun e he => ?_
    rw [Setting.mem_notices he]
    exact Bool.false_ne_true
  have hwaits : (Process.waits t.member.pid t.waited.status t.member.interrupts).filter
      Event.isReaping = Process.waits t.member.pid t.waited.status t.member.interrupts := by
    refine List.filter_eq_self.mpr fun e he => ?_
    obtain ⟨status?, rfl⟩ := Process.mem_waits he
    rfl
  rw [Group.Turn.events, List.filter_append, List.filter_append, hwaits,
    List.filter_cons_of_neg Bool.false_ne_true, hnotices, List.append_nil]
  cases t.terminates <;> rfl

/-- The turns of a block that has failed, where no wait is interrupted. -/
theorem filter_isReaping_turnsOf (calls : Nat) (hinterrupts : ∀ p ∈ ps, p.interrupts = 0) :
    ((Group.turnsOf setting calls true ps).flatMap (Group.Turn.events setting)).filter
      Event.isReaping = ps.flatMap undoing := by
  induction ps generalizing calls with
  | nil => rfl
  | cons p rest ih =>
    obtain ⟨hfirst, hrest⟩ := List.forall_mem_cons.mp hinterrupts
    rw [Group.turnsOf, List.flatMap_cons, List.filter_append, filter_isReaping_turn,
      List.flatMap_cons, Bool.true_or, ih _ hrest]
    congr 1
    cases hrunning : p.running <;>
      simp [Group.Turn.ofMember, Group.Turn.terminates, Group.Turn.waited, Process.waits, undoing,
        Process.terminated, hfirst, hrunning]

/-- After the refusal the processes that have been started are undone, and the refusal is what
    comes out. -/
theorem run_of_refused (hsilent : setting.Silent) {refusal : Refusal}
    (hrefused : Refused setting host m.pipeCalls m stages ps refusal) (hnonempty : [] ∉ stages)
    (hdistinct : (ps.map Process.pid).Nodup) (hinterrupts : ∀ p ∈ ps, p.interrupts = 0) :
    ∃ invocations m' behind,
      let started := startStages setting 0 none invocations host { machine := m }
      run setting stages host m =
        ⟨.error (.stage ps.length refusal.cause), m', started.events ++ behind⟩ ∧
      Halted setting none stages ps refusal 0 { machine := m } started ∧
      behind.filter Event.isReaping = ps.flatMap undoing ∧
      ∀ e ∈ behind, e.isTending = true := by
  obtain ⟨invocations, hstages⟩ := exists_mapM_ofWords_iff.mpr hnonempty
  have hhalted := hrefused.halted hsilent hstages 0 none { machine := m } ⟨rfl, rfl⟩ rfl
  refine ⟨invocations, ?_⟩
  rw [run_of_mapM_ofWords hstages, Group.closing_apply, runStages_eq_tendStages, Action.bind_apply]
  generalize startStages setting 0 none invocations host { machine := m } = started at hhalted
  obtain ⟨outcome, b, l⟩ := started
  obtain rfl : outcome = .error (.stage (0 + ps.length : Nat) refusal.cause) := hhalted.outcome
  have hgroup : b.group = { members := ps } := hhalted.group
  have hpids : b.pids.Nodup := by rwa [Block.pids, hgroup]
  -- Nobody has been waited for yet.
  have hawaited : b.awaited = ps := by simp [Block.awaited, hgroup]
  obtain ⟨b', hleave⟩ := Group.leave_eq_turns hsilent.quietOnEnds hpids
    (.error (.stage (0 + ps.length : Nat) refusal.cause) : Except Failure Unit) host
  have htending := ((Group.tends_isTending setting).leave
    (.error (.stage (0 + ps.length : Nat) refusal.cause) : Except Failure Unit)) host b
  rw [hleave, hawaited] at htending
  rw [Result.andThen_error, hleave, hawaited]
  refine ⟨b'.machine, _, ?_, hhalted, filter_isReaping_turnsOf _ hinterrupts, htending⟩
  rw [Nat.zero_add]
  rfl

/-- What a pipeline comes to whose first stages are started as the given processes and whose next
    one is refused. -/
structure Undone (setting : Setting) (stages : List (List String)) (ps : List Process)
    (refusal : Refusal) (r : Result Machine Unit) : Prop where
  /-- Up to the stage that is refused there is a pipe behind every stage but the last, and none is
      asked for after that. -/
  pipes : (pipes r.events).length = refusal.granted ps.length stages.length
  refused : r.events.count .pipeFailed = refusal.refused
  /-- The attempts to start a stage, each connected to its pipes. -/
  launches : r.events.filter Event.isLaunch
    = wiring setting none (Pipeline.pipes r.events) stages ps ++
      refusal.launches (inputOf none (Pipeline.pipes r.events) ps.length)
        (outputOf (Pipeline.pipes r.events) ps.length)
  /-- Nobody is terminated or waited for before the refusal, and nothing is started behind it. -/
  order : ∃ starts behind, r.events = starts ++ behind ∧ (∀ e ∈ starts, e.isReaping = false) ∧
    ∀ e ∈ behind, e.isTending = true
  reaping : r.events.filter Event.isReaping = ps.flatMap undoing
  outcome : r.outcome = .error (.stage ps.length refusal.cause)
  /-- The cause is the failure of the system itself, or that of a launch. -/
  cause : (∃ f, refusal = .pipe f ∧ f.isSystem = true ∧ refusal.cause = f) ∨
    ∃ argv f message, refusal = .start argv f ∧ stages[ps.length]? = some argv ∧
      refusal.cause = .shell .launch message
  status : (Failure.stage ps.length refusal.cause).exitStatus? = some refusal.status

/-- A pipeline with an empty stage does nothing at all.  Any other one that cannot be fully
    started is undone. -/
theorem run_undone (setting : Setting) (stages : List (List String)) (host : Host) (m : Machine) :
    ([] ∈ stages → run setting stages host m = ⟨.error emptyStage, m, []⟩) ∧
      ∀ ps refusal, setting.Silent → [] ∉ stages →
        Refused setting host m.pipeCalls m stages ps refusal → (ps.map Process.pid).Nodup →
        (∀ p ∈ ps, p.interrupts = 0) →
        Undone setting stages ps refusal (run setting stages host m) := by
  constructor
  · intro hempty
    cases hstages : stages.mapM Invocation.ofWords with
    | error f =>
      rw [run, hstages]
      rfl
    | ok invocations => exact absurd hempty (exists_mapM_ofWords_iff.mp ⟨_, hstages⟩)
  intro ps refusal hsilent hnonempty hrefused hdistinct hinterrupts
  obtain ⟨invocations, m', behind, hrun, hhalted, hreaping, htending⟩ :=
    run_of_refused hsilent hrefused hnonempty hdistinct hinterrupts
  have hstarting := startStages_spec setting invocations 0 none host { machine := m }
  generalize startStages setting 0 none invocations host { machine := m } = started
    at hrun hhalted hstarting
  obtain ⟨hpipes, hlaunches, hreaped⟩ := hstarting.append_tending htending
  rw [hrun]
  refine ⟨?_, ?_, ?_, ⟨_, behind, rfl, hstarting.not_isReaping, htending⟩, hreaped.trans hreaping,
    rfl, ?_, hrefused.exitStatus? _⟩
  · rw [hpipes, hhalted.pipes]
  · have hnone : .pipeFailed ∉ behind := fun hmem => by cases htending _ hmem
    rw [List.count_append, hhalted.refused, List.count_eq_zero.mpr hnone, Nat.add_zero]
  · rw [hpipes, hlaunches, hhalted.launches]
  · obtain ⟨stage, hstage, hargv⟩ := hrefused.getElem?
    refine hrefused.cause_eq.imp id ?_
    rintro ⟨argv, f, message, rfl, hcause⟩
    exact ⟨argv, f, message, rfl, hargv argv f rfl ▸ hstage, hcause⟩

/-- Four stages, the third of which is refused: first there is no program of that name, then there
    is no pipe for it.  The first process is still running, and the second has failed by itself. -/
theorem run_undone_third :
    let m : Machine := { programs := fun name =>
      if name = "a" then [.started { running := true, killedStatus := -15 }]
      else if name = "b" then [.started { status := 3 }]
      else if name = "c" then [.refused .noSuchFile]
      else [.started {}] }
    let full : Failure := .system 24 "Too many open files"
    let crowded : Host := { pipeFailures := fun n => if n = 2 then some full else none }
    let stages := [["a"], ["b", "x"], ["c", "y"], ["d"]]
    let ps : List Process := [.ofScript { running := true, killedStatus := -15 } 101 ["a"],
      .ofScript { status := 3 } 102 ["b", "x"]]
    run {} [["a"], []] {} m = ⟨.error emptyStage, m, []⟩ ∧
      Setting.Silent {} ∧ [] ∉ stages ∧ (ps.map Process.pid).Nodup ∧
      (∀ p ∈ ps, p.interrupts = 0) ∧
      Refused {} {} m.pipeCalls m stages ps (.start ["c", "y"] .noSuchFile) ∧
      Undone {} stages ps (.start ["c", "y"] .noSuchFile) (run {} stages {} m) ∧
      Refused {} crowded m.pipeCalls m stages ps (.pipe full) ∧
      Undone {} stages ps (.pipe full) (run {} stages crowded m) ∧
      ps.flatMap undoing = [.terminate 101, .wait 101 (some (-15)), .wait 102 (some 3)] := by
  intro m full crowded stages ps
  have hsilent : Setting.Silent {} := fun _ h => nomatch h
  have hnonempty : [] ∉ stages := by decide
  have hdistinct : (ps.map Process.pid).Nodup := by decide
  have hinterrupts : ∀ p ∈ ps, p.interrupts = 0 := by decide
  have hmissing : Refused {} {} m.pipeCalls m stages ps (.start ["c", "y"] .noSuchFile) :=
    .later rfl rfl (.later rfl rfl (.start (fun _ => rfl) rfl rfl))
  have hcrowded : Refused {} crowded m.pipeCalls m stages ps (.pipe full) :=
    .later rfl rfl (.later rfl rfl (.pipe (List.cons_ne_nil _ _) rfl rfl))
  exact ⟨(run_undone {} _ {} m).1 (by decide), hsilent, hnonempty, hdistinct, hinterrupts,
    hmissing, (run_undone {} stages {} m).2 ps _ hsilent hnonempty hmissing hdistinct hinterrupts,
    hcrowded,
    (run_undone {} stages crowded m).2 ps _ hsilent hnonempty hcrowded hdistinct hinterrupts,
    by decide⟩

end LineShell.Pipeline
