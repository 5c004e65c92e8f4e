/-
  LineShell.Proofs.Group.Settled

  What becomes of the processes of a group under any observer.

  Once a block has been left, each process that was started in it has been waited
  for exactly once.  There is one exception: while the block is left, the observer
  is told of an end and fails with anything but an interrupt.  Then the leaving
  ends there, and the members behind are not waited for any more
  (`runBlock_settled`, `runBlock_leaks`).  No other failure of the observer, be it
  at a start or at a wait in the block, makes a difference.
-/

import LineShell.Group.Steps
import LineShell.Proofs.Group.Leaving

namespace LineShell

namespace Group

variable {setting : Setting} {α : Type}

/-! ## What a block does with its members -/

theorem tends_tallies (setting : Setting) : Tends setting Tallies := by
  have hfollows : Tends setting Follows := tends_follows
  exact
    { toIsPath := Tallies.isPath
      log := fun b source message => (hfollows.log b source message).toTallies
      reap := fun i host b => (hfollows.reap i host b).toTallies
      terminate := fun h hp => (hfollows.terminate h hp).toTallies }

theorem starts_tallies (setting : Setting) : Starts setting Tallies := by
  have hfollows : Starts setting Follows := starts_follows
  exact
    { toIsPath := Tallies.isPath
      start := fun invocation host b => (hfollows.start invocation host b).toTallies
      pipe := fun host b => (hfollows.pipe host b).toTallies
      close := fun b fd => (hfollows.close b fd).toTallies }

section Steps

variable {R : Block → List Event → Block → Prop}

/-- A step of a block may also terminate a member that has been waited for. -/
theorem Operation.action_keeps (hstarts : Starts setting R) (htends : Tends setting R)
    (hterminate : ∀ b i pid, R b [.terminate pid] (b.modifyMember i Process.terminated))
    (operation : Operation) : (operation.action setting).Keeps R := by
  have hpath := htends.toIsPath
  have hplace : ∀ position, (placeOf position).Keeps R := by
    intro position
    refine .bind hpath (.get hpath) fun b => ?_
    dsimp only
    generalize (if position < 0 then position + (b.group.members.length : Int) else position)
      = place
    split
    · exact .pure hpath _
    · exact .fail hpath _
  cases operation with
  | start invocation =>
    exact .bind hpath (hstarts.start invocation) fun _ =>
      .bind hpath (.get hpath) fun _ => .pure hpath _
  | wait position =>
    exact .bind hpath (hplace position) fun place =>
      .bind hpath (htends.wait place) fun _ => .pure hpath none
  | terminate position =>
    refine .bind hpath (hplace position) fun place => .bind hpath ?_ fun _ => .pure hpath none
    intro host b
    simp only [Group.terminate, Action.bind_apply, Action.get_apply, Result.andThen_ok]
    cases b.member? place with
    | none => exact hpath.nil b
    | some p => exact hterminate b place p.pid
  | raise f => exact .fail hpath f

/-- What every step keeps is kept by all steps of a block together. -/
theorem runSteps_keeps (hpath : IsPath R)
    (hstep : ∀ step : Step, (step.action setting).Keeps R) (host : Host) (steps : List Step)
    (b : Block) :
    let block := runSteps setting host steps b
    R b (block.1.flatMap Result.events ++ block.2.events) block.2.state := by
  induction steps generalizing b with
  | nil => exact hpath.nil b
  | cons step rest ih =>
    have hfirst := hstep step host b
    have hrest := hpath.append hfirst (ih (step.action setting host b).state)
    rw [← List.append_assoc] at hrest
    simp only [runSteps]
    split
    -- The step leaves the block, and no other follows.
    · exact hfirst
    · exact hrest

theorem runSteps_tallies (setting : Setting) (host : Host) (steps : List Step) (b : Block) :
    let block := runSteps setting host steps b
    Tallies b (block.1.flatMap Result.events ++ block.2.events) block.2.state := by
  refine runSteps_keeps Tallies.isPath (fun step => ?_) host steps b
  refine .bind Tallies.isPath ?_ fun _ => .pure Tallies.isPath _
  refine step.operation.action_keeps (starts_tallies setting) (tends_tallies setting)
    fun b i pid => ?_
  exact .of_neutral (List.forall_mem_singleton.mpr ⟨rfl, rfl⟩) (Block.pids_terminated ..) rfl

end Steps

theorem runStages_tallies (setting : Setting) (stages : List Invocation) :
    (Pipeline.runStages setting stages).Keeps Tallies := by
  rw [Pipeline.runStages_eq_tendStages]
  refine .bind Tallies.isPath ?_ fun _ => Pipeline.tendStages_keeps (tends_tallies setting) stages
  exact Pipeline.startStages_keeps (starts_tallies setting) stages 0 none

/-! ## Once a block has been left -/

/-- What has become of the processes that were started in a block, `ran` being its events up to
    the leaving: all have been waited for, or the observer has broken when it was told of an end
    while the block was left. -/
inductive Settled (setting : Setting) (ran : List Event) (left : Result Block α) : Prop
  | all (h : ∀ pid ∈ processes.acquired (ran ++ left.events),
      (processes.released (ran ++ left.events)).count pid = 1)
  /-- Those behind the one of whose end the observer was told have been waited for in the block,
      or not at all. -/
  | broken {before behind : List Int} {pid : Int} {argv : List String} {status : Int} {f : Failure}
      {l : List Event}
      (hstarted : processes.acquired (ran ++ left.events) = before ++ pid :: behind)
      (hbreaks : setting.Breaks (.reaped pid argv status) f) (houtcome : left.outcome = .error f)
      (hevents : left.events = l ++ [.hook (.reaped pid argv status)])
      (hbefore : ∀ other ∈ before ++ [pid],
        (processes.released (ran ++ left.events)).count other = 1)
      (hbehind : ∀ other ∈ behind, other ∉ processes.released left.events ∧
        (processes.released ran).count other ≤ 1)

/-- What comes behind others without repeating them, and is one of them or of a second list, is
    of the second list. -/
theorem notMem_of_append_subset {old new more : List Int} {pid : Int}
    (hnodup : (old ++ new).Nodup) (hsubset : old ++ new ⊆ old ++ more) (hpid : pid ∉ more) :
    pid ∉ new := by
  intro hnew
  have hold : pid ∉ old := fun hold => List.disjoint_of_nodup_append hnodup hold hnew
  rcases List.mem_append.mp (hsubset (List.mem_append_right old hnew)) with hmem | hmem
  · exact hold hmem
  · exact hpid hmem

theorem leave_settled {ran : List Event} {m : Machine} {b : Block}
    (hran : Tallies { machine := m } ran b) (outcome : Except Failure α) (host : Host)
    (hnodup : (processes.acquired (ran ++ (leave setting outcome host b).events)).Nodup) :
    Settled setting ran (leave setting outcome host b) := by
  obtain ⟨stopping, hthrough, hstate, hevents, hfailure⟩ := leave_spec setting outcome host b
  have hall := Tallies.isPath.append hran ((tends_tallies setting).leave outcome host b)
  have hpids := ((tends_grows setting).leave outcome host b).1
  generalize leave setting outcome host b = left at hstate hevents hfailure hall hpids hnodup ⊢
  -- The members are the processes started, and those remembered are the ones waited for.
  have hstarted : processes.acquired (ran ++ left.events) = b.pids :=
    hall.pids.symm.trans hpids
  have hwaited : left.state.group.reaped = processes.released (ran ++ left.events) := hall.reaped
  have honce := hall.nodup List.nodup_nil
  rw [hwaited] at honce
  have hcount : ∀ pid ∈ left.state.group.reaped,
      (processes.released (ran ++ left.events)).count pid = 1 := by
    intro pid hpid
    exact List.count_eq_one_of_mem honce (hwaited ▸ hpid)
  generalize releaseAll setting stopping none _ host b = r at hthrough hstate hevents hfailure
  cases hthrough with
  | all hpids' =>
    refine .all fun pid hpid => hcount pid ?_
    rw [hstate]
    exact hpids' (hstarted ▸ hpid)
  | @broken before behind pid argv status f b' l hsplit hbreaks hbefore hreaped =>
    refine .broken (hstarted.trans hsplit) hbreaks (hfailure f rfl) hevents ?_ ?_
    · intro other hother
      refine hcount other ?_
      rw [hstate]
      exact hbefore hother
    · intro other hother
      -- Its number is none of those that were gone through, and only those are new.
      rw [hstarted, hsplit, List.append_cons] at hnodup
      have hother' : other ∉ before ++ [pid] := fun hmem =>
        List.disjoint_of_nodup_append hnodup hmem hother
      have hold : b.group.reaped = processes.released ran := hran.reaped
      rw [Custody.released_append] at honce hwaited
      have hnew : processes.released ran ++ processes.released left.events
          ⊆ processes.released ran ++ (before ++ [pid]) := by
        rw [← hwaited, hstate, ← hold]
        exact hreaped
      exact ⟨notMem_of_append_subset honce hnew hother',
        List.nodup_iff_count_le_one.mp honce.of_append_left other⟩

/-- What the steps of a new block come to before it is left. -/
def beforeLeaving (setting : Setting) (steps : List Step) (host : Host) (m : Machine) :
    Result Block Unit :=
  let block := runSteps setting host steps { machine := m }
  block.2.after (block.1.flatMap Result.events)

/-- What the leaving comes to after a block. -/
def leaving (setting : Setting) (host : Host) (ran : Result Block α) : Result Block α :=
  leave setting ran.outcome host ran.state

/-- A block of any steps, and the block of any pipeline, under an observer that may fail at any
    of its calls: once the block has been left, each process that was started in it has been
    waited for exactly once, unless the observer has broken while the block was left. -/
theorem runBlock_settled (setting : Setting) (host : Host) (m : Machine) :
    (∀ steps : List Step,
      let course := runBlock setting steps host m
      let ran := beforeLeaving setting steps host m
      let left := leaving setting host ran
      course.records.flatMap Result.events ++ course.left.events = ran.events ++ left.events ∧
        course.left.outcome = left.outcome ∧ course.left.state = left.state ∧
        ((processes.acquired (ran.events ++ left.events)).Nodup →
          Settled setting ran.events left)) ∧
    ∀ stages invocations, stages.mapM Invocation.ofWords = .ok invocations →
      let ran := Pipeline.runStages setting invocations host { machine := m }
      let left := leaving setting host ran
      Pipeline.run setting stages host m = (left.after ran.events).mapState Block.machine ∧
        ((processes.acquired (ran.events ++ left.events)).Nodup →
          Settled setting ran.events left) := by
  refine ⟨fun steps => ⟨?_, rfl, rfl, ?_⟩, fun stages invocations hstages => ⟨?_, ?_⟩⟩
  · exact (List.append_assoc ..).symm
  · exact leave_settled (runSteps_tallies setting host steps { machine := m }) _ host
  · rw [Pipeline.run, hstages]
    rfl
  · exact leave_settled (runStages_tallies setting invocations host { machine := m }) _ host

/-- An observer that fails at a start, and again at the second of the ends that it is told of. -/
theorem runBlock_settled_broken :
    let m : Machine := { programs := fun program => if program = "r" then [] else [.started {}] }
    let setting : Setting :=
      { hook := some fun n _ => if n = 1 ∨ n = 4 then some (.fault .runtime "x") else none }
    let steps : List Step :=
      ["p", "q", "r", "s"].map fun program => { operation := .start { program := program } }
    let ran := beforeLeaving setting steps {} m
    let left := leaving setting {} ran
    let invocations : List Invocation := ["p", "q", "r"].map fun program => { program := program }
    let ran' := Pipeline.runStages setting invocations {} { machine := m }
    let left' := leaving setting {} ran'
    (processes.acquired (ran.events ++ left.events)).Nodup ∧ Settled setting ran.events left ∧
      [["p"], ["q"], ["r"]].mapM Invocation.ofWords = .ok invocations ∧
      (processes.acquired (ran'.events ++ left'.events)).Nodup ∧
      Settled setting ran'.events left' := by
  intro m setting steps ran left invocations ran' left'
  obtain ⟨hblocks, hpipelines⟩ := runBlock_settled setting {} m
  have hsteps : (processes.acquired (ran.events ++ left.events)).Nodup := by decide +kernel
  have hstages : (processes.acquired (ran'.events ++ left'.events)).Nodup := by decide +kernel
  obtain ⟨-, -, -, hblock⟩ := hblocks steps
  obtain ⟨-, hpipeline⟩ := hpipelines [["p"], ["q"], ["r"]] invocations rfl
  exact ⟨hsteps, hblock hsteps, rfl, hstages, hpipeline hstages⟩

/-- The observer fails at the first end that it is told of while the block is left, and the other
    process is not waited for. -/
theorem runBlock_leaks :
    let m : Machine := { programs := fun _ => [.started {}] }
    let setting : Setting :=
      { hook := some fun n _ => if n = 2 then some (.fault .runtime "x") else none }
    let steps : List Step :=
      ["p", "q"].map fun program => { operation := .start { program := program } }
    let course := runBlock setting steps {} m
    let l := course.records.flatMap Result.events ++ course.left.events
    (processes.acquired l).Nodup ∧ 102 ∈ processes.acquired l ∧
      (processes.released l).count 102 = 0 := by
  decide +kernel

end Group

end LineShell
