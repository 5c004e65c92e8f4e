/-
  LineShell.Proofs.Pipeline.Trace

  The events of a pipeline.

  While its stages are started, a pipeline does for each of them the same: it asks
  for the pipe behind the stage, unless the stage is the last, attempts the start,
  and closes what was meant for the stage.  `StartTrace` is the grammar of the
  events that can come of this, with the numbers of the descriptors: the pipe
  behind the first of the stages is `n` and `n + 1`, the next one `n + 2` and
  `n + 3`, and so on.  After that the stages are only tended, and the events of
  the whole pipeline fall into these two parts (`events_run`).
-/

import LineShell.Proofs.Group.Events

namespace LineShell

namespace Pipeline

variable {setting : Setting}

/-- The events of closing the end of a pipe, where there is one. -/
def closes : Option Descriptor → List Event
  | none => []
  | some fd => [.close fd]

theorem closeEnd_apply {σ : Type} (fd : Option Descriptor) (host : Host) (s : σ) :
    closeEnd fd host s = ⟨.ok (), s, closes fd⟩ := by
  cases fd <;> rfl

/-! ## Starting the stages -/

/-- The events of starting stages, the first of which reads from `readEnd`, while `n` is the
    number of the next descriptor, and whether all are started. -/
inductive StartTrace (setting : Setting) :
    Option Descriptor → Descriptor → List Invocation → Bool → List Event → Prop
  | done {readEnd : Option Descriptor} {n : Descriptor} :
      StartTrace setting readEnd n [] true (closes readEnd)
  /-- There is no pipe to be had for the stage, so it is not started. -/
  | noPipe {readEnd : Option Descriptor} {n : Descriptor} {stage : Invocation}
      {rest : List Invocation} (hrest : rest ≠ []) :
      StartTrace setting readEnd n (stage :: rest) false (.pipeFailed :: closes readEnd)
  | last {readEnd : Option Descriptor} {n : Descriptor} {stage : Invocation} {ok : Bool}
      {a : List Event}
      (ha : Group.Attempt setting { stage with stdin := streamOf readEnd, stdout := .inherited }
        ok a) :
      StartTrace setting readEnd n [stage] ok (a ++ closes readEnd)
  /-- The stage is not started: the pipe behind it is of no use. -/
  | stopped {readEnd : Option Descriptor} {n : Descriptor} {stage : Invocation}
      {rest : List Invocation} {a : List Event} (hrest : rest ≠ [])
      (ha : Group.Attempt setting
        { stage with stdin := streamOf readEnd, stdout := .descriptor (n + 1) } false a) :
      StartTrace setting readEnd n (stage :: rest) false
        (.pipe n (n + 1) :: (a ++ (closes readEnd ++ [.close (n + 1), .close n])))
  | started {readEnd : Option Descriptor} {n : Descriptor} {stage : Invocation}
      {rest : List Invocation} {a l : List Event} {ok : Bool} (hrest : rest ≠ [])
      (ha : Group.Attempt setting
        { stage with stdin := streamOf readEnd, stdout := .descriptor (n + 1) } true a)
      (hl : StartTrace setting (some n) (n + 2) rest ok l) :
      StartTrace setting readEnd n (stage :: rest) ok
        (.pipe n (n + 1) :: (a ++ (closes readEnd ++ .close (n + 1) :: l)))

/-- What holds of each event of starting stages. -/
theorem StartTrace.forall_mem {readEnd : Option Descriptor} {n : Descriptor}
    {stages : List Invocation} {ok : Bool} {l : List Event}
    (h : StartTrace setting readEnd n stages ok l) {P : Event → Prop}
    (hattempt : ∀ stage ∈ stages, ∀ stdin stdout ok a,
      (∀ path, stdin ≠ .file path ∧ stdout ≠ .file path) →
      Group.Attempt setting { stage with stdin := stdin, stdout := stdout } ok a → ∀ e ∈ a, P e)
    (hpipe : ∀ r w, P (.pipe r w)) (hfailed : P .pipeFailed) (hclose : ∀ fd, P (.close fd)) :
    ∀ e ∈ l, P e := by
  have hcloses : ∀ readEnd, ∀ e ∈ closes readEnd, P e := by
    intro readEnd e he
    cases readEnd with
    | none => cases he
    | some fd =>
      rw [List.mem_singleton.mp he]
      exact hclose fd
  have hstdin : ∀ readEnd path, streamOf readEnd ≠ .file path := by
    intro readEnd path
    cases readEnd <;> simp [streamOf]
  induction h with
  | done => exact hcloses _
  | noPipe =>
    intro e he
    rcases List.mem_cons.mp he with rfl | he
    · exact hfailed
    · exact hcloses _ e he
  | last ha =>
    intro e he
    rcases List.mem_append.mp he with he | he
    · exact hattempt _ List.mem_cons_self _ _ _ _ (fun path => ⟨hstdin _ path, by simp⟩) ha e he
    · exact hcloses _ e he
  | stopped _ ha =>
    intro e he
    simp only [List.mem_cons, List.mem_append, List.not_mem_nil, or_false] at he
    rcases he with rfl | he | he | rfl | rfl
    · exact hpipe _ _
    · exact hattempt _ List.mem_cons_self _ _ _ _ (fun path => ⟨hstdin _ path, by simp⟩) ha e he
    · exact hcloses _ e he
    · exact hclose _
    · exact hclose _
  | started _ ha _ ih =>
    intro e he
    simp only [List.mem_cons, List.mem_append] at he
    rcases he with rfl | he | he | rfl | he
    · exact hpipe _ _
    · exact hattempt _ List.mem_cons_self _ _ _ _ (fun path => ⟨hstdin _ path, by simp⟩) ha e he
    · exact hcloses _ e he
    · exact hclose _
    · exact ih (fun stage hstage => hattempt stage (List.mem_cons_of_mem _ hstage)) e he

/-- A stage between two pipes: whatever becomes of the start, the ends that were meant for it
    are closed, and after a failure the read end of the next pipe too. -/
theorem startStage_apply (setting : Setting) (index : Nat) (stage : Invocation)
    (readEnd writeEnd nextRead : Option Descriptor) (host : Host) (b : Block) :
    let started := Group.start setting
      { stage with stdin := streamOf readEnd, stdout := streamOf writeEnd } host b
    startStage setting index stage readEnd writeEnd nextRead host b =
      ⟨started.outcome.mapError (startFailure index), started.state,
        started.events ++ closes readEnd ++ closes writeEnd ++
          if started.outcome.isOk then [] else closes nextRead⟩ := by
  cases hstarted : Group.start setting
      { stage with stdin := streamOf readEnd, stdout := streamOf writeEnd } host b with
  | mk outcome b' a =>
    simp only [startStage, Action.onFailure, Action.ensuring, Action.bind_apply,
      Action.attempt_apply, Action.mapFailure_apply, Result.andThen_ok, closeEnd_apply,
      Action.ofExcept_apply, Result.after_mk, List.append_nil, hstarted]
    cases outcome with
    | ok position => simp [Except.isOk, Except.toBool]
    | error f => simp [Except.isOk, Except.toBool, closeEnd_apply]

/-- What the events of a stage are made of. -/
theorem startStage_spec (setting : Setting) (index : Nat) (stage : Invocation)
    (readEnd writeEnd nextRead : Option Descriptor) (host : Host) (b : Block) :
    ∃ outcome b' a, startStage setting index stage readEnd writeEnd nextRead host b =
        ⟨outcome, b', a ++ closes readEnd ++ closes writeEnd ++
          if outcome.isOk then [] else closes nextRead⟩ ∧
      Group.Attempt setting { stage with stdin := streamOf readEnd, stdout := streamOf writeEnd }
        outcome.isOk a ∧ b.machine.nextDescriptor = b'.machine.nextDescriptor := by
  obtain ⟨hattempt, hsteady⟩ := (Group.start_spec setting
    { stage with stdin := streamOf readEnd, stdout := streamOf writeEnd } host b).attempt
  have happly := startStage_apply setting index stage readEnd writeEnd nextRead host b
  simp only at happly
  generalize Group.start setting _ host b = r at hattempt hsteady happly
  -- Renaming the failure makes no success of it.
  have hisOk : (r.outcome.mapError (startFailure index)).isOk = r.outcome.isOk := by
    cases r.outcome <;> rfl
  rw [← hisOk] at hattempt happly
  exact ⟨_, _, _, happly, hattempt, hsteady.nextDescriptor.symm⟩

/-- Behind a stage that is not the last a pipe is asked for.  Where there is none to be had, the
    input of the stage is closed, and a failure of the system is that of the stage. -/
theorem connect_apply (index : Nat) (readEnd : Option Descriptor) (host : Host) (b : Block) :
    connect index readEnd false host b =
      match host.pipeFailures b.machine.pipeCalls with
      | some f =>
        ⟨.error (if f.systemReason?.isSome then .stage index f else f),
          { b with machine := { b.machine with pipeCalls := b.machine.pipeCalls + 1 } },
          .pipeFailed :: closes readEnd⟩
      | none =>
        ⟨.ok (some b.machine.nextDescriptor, some (b.machine.nextDescriptor + 1)),
          { b with machine := { b.machine with
            pipeCalls := b.machine.pipeCalls + 1
            nextDescriptor := b.machine.nextDescriptor + 2 } },
          [.pipe b.machine.nextDescriptor (b.machine.nextDescriptor + 1)]⟩ := by
  simp only [connect, Bool.false_eq_true, if_false, Action.onFailure, openPipe, Action.inBlock,
    Action.bind_apply, Action.attempt_apply, Action.mapFailure_apply, Action.zoom_apply,
    Machine.pipe_apply]
  cases host.pipeFailures b.machine.pipeCalls with
  | some f => simp [closeEnd_apply]
  | none => simp

theorem connect_spec (index : Nat) (readEnd : Option Descriptor) (host : Host) (b : Block) :
    (∃ f b', connect index readEnd false host b =
        ⟨.error f, b', .pipeFailed :: closes readEnd⟩) ∨
      ∃ b', connect index readEnd false host b =
          ⟨.ok (some b.machine.nextDescriptor, some (b.machine.nextDescriptor + 1)), b',
            [.pipe b.machine.nextDescriptor (b.machine.nextDescriptor + 1)]⟩ ∧
        b'.machine.nextDescriptor = b.machine.nextDescriptor + 2 := by
  rw [connect_apply]
  split
  · exact .inl ⟨_, _, rfl⟩
  · exact .inr ⟨_, rfl, rfl⟩

theorem startStages_spec (setting : Setting) (stages : List Invocation) (index : Nat)
    (readEnd : Option Descriptor) (host : Host) (b : Block) :
    StartTrace setting readEnd b.machine.nextDescriptor stages
      (startStages setting index readEnd stages host b).outcome.isOk
      (startStages setting index readEnd stages host b).events := by
  induction stages generalizing index readEnd b with
  | nil =>
    rw [startStages, closeEnd_apply]
    exact .done
  | cons stage rest ih =>
    rw [startStages_cons]
    -- The last stage has no pipe behind it, and every other stage has one.
    cases rest with
    | nil =>
      obtain ⟨outcome, b', a, hstage, ha, -⟩ :=
        startStage_spec setting index stage readEnd none none host b
      simp only [connect, List.isEmpty_nil, if_true, Action.bind_apply, Action.pure_apply,
        Result.andThen_ok, hstage, Result.after_nil]
      cases outcome with
      | error f =>
        simp only [Result.andThen_error, closes, List.append_nil, ite_self]
        exact .last ha
      | ok position =>
        simp only [Result.andThen_ok, startStages, closeEnd_apply, Result.after_mk, closes,
          List.append_nil, ite_self]
        exact .last ha
    | cons next rest =>
      have hne : next :: rest ≠ [] := List.cons_ne_nil next rest
      rw [List.isEmpty_cons, Action.bind_apply]
      rcases connect_spec index readEnd host b with ⟨f, b', hconnect⟩ | ⟨b₁, hconnect, hnext⟩
      · rw [hconnect]
        exact .noPipe hne
      · rw [hconnect, Result.andThen_ok, Action.bind_apply]
        obtain ⟨outcome, b₂, a, hstage, ha, hsteady⟩ :=
          startStage_spec setting index stage readEnd (some (b.machine.nextDescriptor + 1))
            (some b.machine.nextDescriptor) host b₁
        rw [hstage]
        cases outcome with
        | error f =>
          have htrace := StartTrace.stopped (n := b.machine.nextDescriptor) hne ha
          simpa [Result.after, closes, Except.isOk, Except.toBool] using htrace
        | ok position =>
          -- The start hands out no descriptor, so the next pipe is the one after this one.
          have hlater := ih (index + 1) (some b.machine.nextDescriptor) b₂
          rw [← hsteady, hnext] at hlater
          have htrace := StartTrace.started (n := b.machine.nextDescriptor) hne ha hlater
          simpa [Result.after, closes, Except.isOk, Except.toBool] using htrace

/-! ## Whole pipelines -/

/-- Stages that are not empty have invocations, the first of them that of the first words. -/
theorem mapM_ofWords_cons {words : List String} {rest : List (List String)}
    {invocations : List Invocation}
    (h : (words :: rest).mapM Invocation.ofWords = .ok invocations) :
    ∃ program args later, words = program :: args ∧
      rest.mapM Invocation.ofWords = .ok later ∧ invocations = { program, args } :: later := by
  rw [List.mapM_cons] at h
  cases words with
  | nil => cases h
  | cons program args =>
    cases hrest : rest.mapM Invocation.ofWords with
    | error f =>
      rw [hrest] at h
      cases h
    | ok later =>
      rw [hrest] at h
      cases h
      exact ⟨program, args, later, rfl, rfl, rfl⟩

/-- The invocations of stages have the words of the stages, and no streams of their own. -/
theorem of_mapM_ofWords {stages : List (List String)} {invocations : List Invocation}
    (h : stages.mapM Invocation.ofWords = .ok invocations) :
    invocations.map Invocation.argv = stages ∧ ∀ i ∈ invocations, i.stderr = .inherited := by
  induction stages generalizing invocations with
  | nil =>
    cases h
    exact ⟨rfl, by simp⟩
  | cons words rest ih =>
    obtain ⟨program, args, later, rfl, hrest, rfl⟩ := mapM_ofWords_cons h
    obtain ⟨hargv, hstderr⟩ := ih hrest
    exact ⟨congrArg ((program :: args) :: ·) hargv, List.forall_mem_cons.mpr ⟨rfl, hstderr⟩⟩

theorem eq_nil_iff_of_mapM_ofWords {stages : List (List String)} {invocations : List Invocation}
    (h : stages.mapM Invocation.ofWords = .ok invocations) : invocations = [] ↔ stages = [] := by
  rw [← (of_mapM_ofWords h).1, List.map_eq_nil_iff]

/-- Stages have invocations unless one of them is empty. -/
theorem exists_mapM_ofWords_iff {stages : List (List String)} :
    (∃ invocations, stages.mapM Invocation.ofWords = .ok invocations) ↔ [] ∉ stages := by
  induction stages with
  | nil => exact ⟨fun _ => List.not_mem_nil, fun _ => ⟨[], rfl⟩⟩
  | cons words rest ih =>
    rw [List.mem_cons, not_or, ← ih]
    constructor
    · rintro ⟨invocations, h⟩
      obtain ⟨program, args, later, rfl, hrest, -⟩ := mapM_ofWords_cons h
      exact ⟨(List.cons_ne_nil _ _).symm, later, hrest⟩
    · rintro ⟨hwords, later, hrest⟩
      obtain ⟨program, args, rfl⟩ := List.exists_cons_of_ne_nil (Ne.symm hwords)
      refine ⟨{ program, args } :: later, ?_⟩
      rw [List.mapM_cons, hrest]
      rfl

/-- A pipeline without an empty stage is the block of its stages. -/
theorem run_of_mapM_ofWords {stages : List (List String)} {invocations : List Invocation}
    (h : stages.mapM Invocation.ofWords = .ok invocations) (host : Host) (m : Machine) :
    run setting stages host m =
      (Group.closing setting (runStages setting invocations) host { machine := m }).mapState
        Block.machine := by
  rw [run, h]
  rfl

/-- The events of a pipeline: those of starting the stages, and those of tending them.  If a
    stage is not started, the pipeline fails. -/
theorem events_run (setting : Setting) (stages : List (List String)) (host : Host)
    (m : Machine) :
    run setting stages host m = ⟨.error emptyStage, m, []⟩ ∨
      ∃ invocations ok starts tending,
        stages.mapM Invocation.ofWords = .ok invocations ∧
        (run setting stages host m).events = starts ++ tending ∧
        StartTrace setting none m.nextDescriptor invocations ok starts ∧
        (∀ e ∈ tending, e.isTending = true) ∧
        (ok = false → ∃ f, (run setting stages host m).outcome = .error f) := by
  unfold run
  cases hstages : stages.mapM Invocation.ofWords with
  | error f => exact .inl rfl
  | ok invocations =>
    have htends := Group.tends_isTending setting
    obtain ⟨tending, hevents, htending⟩ := htends.closing_bind
      (fun _ => tendStages_keeps htends invocations) host { machine := m }
    refine .inr ⟨invocations, _, _, tending, rfl, hevents,
      startStages_spec setting invocations 0 none host { machine := m }, htending, fun hok => ?_⟩
    show ∃ f, (Group.closing setting (runStages setting invocations) host
      { machine := m }).outcome = .error f
    rw [runStages_eq_tendStages, Group.closing_apply, Action.bind_apply]
    generalize startStages setting 0 none invocations host { machine := m } = r at hok
    obtain ⟨f | u, b, l⟩ := r
    · exact Group.leave_error setting f host b
    · cases hok

end Pipeline

end LineShell
