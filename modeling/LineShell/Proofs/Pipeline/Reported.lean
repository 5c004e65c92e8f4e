/-
  LineShell.Proofs.Pipeline.Reported

  The failures of pipelines.

  Starting the stages adds one member for each of them, or fails with a failure of
  the shell (`Adds`, which is settled part by part).  Then each of the members is
  waited for at most once, and while the numbers of the processes are distinct, the
  wait for one makes no other count as waited for (`Waiting`).  So every wait comes
  to a status or to an interrupt, and a pipeline fails with a failure that a read
  loop reports (`run_reported`).
-/

import LineShell.Proofs.Group.Reported
import LineShell.Proofs.Pipeline.Interrupts

namespace LineShell.Pipeline

variable {setting : Setting} {host : Host}

/-! ## Adding members -/

/-- So many members with names have been added to a block, and nothing else has happened to its
    group. -/
structure Gains (b : Block) (n : Nat) (b' : Block) : Prop where
  spends : b.machine.Spends b'.machine
  members : ∃ ps : List Process, ps.length = n ∧ (∀ p ∈ ps, p.args ≠ []) ∧
    b'.group = { b.group with members := b.group.members ++ ps }

namespace Gains

variable {b b₁ b₂ : Block} {n k : Nat}

theorem of_group (hgroup : b₁.group = b.group) (hspends : b.machine.Spends b₁.machine) :
    Gains b 0 b₁ :=
  ⟨hspends, [], rfl, fun _ hp => absurd hp List.not_mem_nil, by simp [hgroup]⟩

theorem append (h₁ : Gains b n b₁) (h₂ : Gains b₁ k b₂) : Gains b (n + k) b₂ := by
  obtain ⟨hspends₁, ps₁, hlength₁, hnamed₁, hgroup₁⟩ := h₁
  obtain ⟨hspends₂, ps₂, hlength₂, hnamed₂, hgroup₂⟩ := h₂
  refine ⟨hspends₁.trans hspends₂, ps₁ ++ ps₂, ?_,
    List.forall_mem_append.mpr ⟨hnamed₁, hnamed₂⟩, ?_⟩
  · rw [List.length_append, hlength₁, hlength₂]
  · rw [hgroup₂, hgroup₁, List.append_assoc]

end Gains

/-- On a sound machine the action adds so many members, or fails with a failure of the shell. -/
def Adds {α : Type} (host : Host) (n : Nat) (x : Action Block α) : Prop :=
  ∀ b, b.machine.Sound → (∀ f, (x host b).outcome = .error f → f.isShell = true) ∧
    ∀ a, (x host b).outcome = .ok a → Gains b n (x host b).state

theorem Adds.bind {α β : Type} {x : Action Block α} {next : α → Action Block β} {n k : Nat}
    (hx : Adds host n x) (hnext : ∀ a, Adds host k (next a)) : Adds host (n + k) (x >>= next) := by
  intro b hsound
  obtain ⟨hfails, hgains⟩ := hx b hsound
  rw [Action.bind_apply]
  generalize x host b = r at hfails hgains
  obtain ⟨outcome, b₁, l⟩ := r
  cases outcome with
  | error f =>
    refine ⟨?_, fun a ha => ?_⟩
    · rintro _ ⟨⟩
      exact hfails f rfl
    · cases ha
  | ok a =>
    -- The machine is sound behind the first action, too.
    have hfirst := hgains a rfl
    obtain ⟨hfails', hgains'⟩ := hnext a b₁ (hsound.of_spends hfirst.spends)
    exact ⟨hfails', fun a' ha' => hfirst.append (hgains' a' ha')⟩

/-! ## Starting the stages -/

theorem closeEnd_adds (host : Host) (fd : Option Descriptor) :
    Adds host 0 (closeEnd fd : Action Block Unit) := by
  intro b _
  rw [closeEnd_apply]
  refine ⟨fun f hf => ?_, fun _ _ => .of_group rfl fun _ => List.suffix_rfl⟩
  cases hf

/-- A pipe that cannot be had is a failure of the stage before it. -/
theorem connect_adds (hpipes : ∀ n f, host.pipeFailures n = some f → f.isSystem = true)
    (index : Nat) (readEnd : Option Descriptor) (last : Bool) :
    Adds host 0 (connect index readEnd last) := by
  intro b _
  cases last with
  | true =>
    refine ⟨fun f hf => ?_, fun _ _ => .of_group rfl fun _ => List.suffix_rfl⟩
    cases hf
  | false =>
    rw [connect_apply]
    cases hfailure : host.pipeFailures b.machine.pipeCalls with
    | none =>
      refine ⟨fun f hf => ?_, fun _ _ => .of_group rfl fun _ => List.suffix_rfl⟩
      cases hf
    | some f =>
      have hsystem : f.systemReason?.isSome = true := hpipes _ f hfailure
      simp only [hsystem, if_true]
      refine ⟨?_, fun a ha => ?_⟩
      · rintro _ ⟨⟩
        rfl
      · cases ha

theorem isShell_startFailure {f : Failure} (h : f.isShell = true) (index : Nat) :
    (startFailure index f).isShell = true := by
  unfold startFailure
  split
  · rfl
  · exact h

theorem startStage_adds (host : Host) (hsilent : setting.Silent) (index : Nat) {stage : Invocation}
    (hnull : stage.argv.any Machine.hasNull = false)
    (readEnd writeEnd nextRead : Option Descriptor) :
    Adds host 1 (startStage setting index stage readEnd writeEnd nextRead) := by
  intro b hsound
  rw [startStage_apply]
  obtain ⟨hm, hstart⟩ := Group.start_of_sound host hsilent
    { stage with stdin := streamOf readEnd, stdout := streamOf writeEnd } hnull hsound
  generalize Group.start setting _ host b = r at hm hstart
  obtain ⟨outcome, b', l⟩ := r
  rcases hstart with ⟨f, rfl, hshell, -⟩ | ⟨p, rfl, hargs, hgroup⟩
  · refine ⟨?_, fun a ha => ?_⟩
    · rintro _ ⟨⟩
      exact isShell_startFailure hshell index
    · cases ha
  · refine ⟨fun f hf => ?_, fun _ _ => ⟨hm.programs, [p], rfl, ?_, hgroup⟩⟩
    · cases hf
    · exact List.forall_mem_singleton.mpr hargs

/-- Starting stages without null characters adds a member for each of them, or fails with a
    failure of the shell. -/
theorem startStages_adds (hsilent : setting.Silent)
    (hpipes : ∀ n f, host.pipeFailures n = some f → f.isSystem = true) (stages : List Invocation)
    (hnull : ∀ stage ∈ stages, stage.argv.any Machine.hasNull = false) (index : Nat)
    (readEnd : Option Descriptor) :
    Adds host stages.length (startStages setting index readEnd stages) := by
  induction stages generalizing index readEnd with
  | nil => exact closeEnd_adds host readEnd
  | cons stage rest ih =>
    have hfirst := hnull stage List.mem_cons_self
    have hrest := fun stage hstage => hnull stage (List.mem_cons_of_mem _ hstage)
    have hlength : (stage :: rest).length = 0 + (1 + rest.length) := by
      rw [List.length_cons]
      omega
    rw [startStages_cons, hlength]
    refine .bind (connect_adds hpipes index readEnd rest.isEmpty) fun ends => ?_
    refine .bind (startStage_adds host hsilent index hfirst readEnd ends.2 ends.1) fun _ => ?_
    exact ih hrest (index + 1) ends.1

/-! ## Waiting for the stages -/

/-- The members at the positions are still to be waited for, and a wait for one of them makes
    no other count as waited for. -/
structure Waiting (b : Block) (positions : List Nat) : Prop where
  distinct : b.pids.Nodup
  named : b.Named
  once : positions.Nodup
  live : ∀ i ∈ positions, ∃ p, b.member? i = some p ∧ p.pid ∉ b.group.reaped

/-- The state after a wait for the first of the members. -/
theorem Waiting.next {b : Block} {i : Nat} {rest : List Nat} (h : Waiting b (i :: rest))
    {p : Process} (hp : b.member? i = some p) (m : Machine) :
    Waiting ((({ b with machine := m } : Block).modifyMember i Process.ended).markReaped p.pid)
      rest where
  distinct := by
    rw [Block.pids_markReaped, Block.pids_ended]
    exact h.distinct
  named := by
    intro q hq
    obtain ⟨j, hj⟩ := List.getElem?_of_mem hq
    obtain ⟨q', hq', rfl⟩ := Group.member?_waited hj
    have hargs : q'.args ≠ [] := h.named q' (List.mem_of_getElem? hq')
    split <;> exact hargs
  once := h.once.of_cons
  live := by
    intro j hj
    obtain ⟨q, hq, hlive⟩ := h.live j (List.mem_cons_of_mem i hj)
    have hne : i ≠ j := by
      rintro rfl
      exact (List.nodup_cons.mp h.once).1 hj
    refine ⟨q, (b.member?_modifyMember_of_ne hne Process.ended).trans hq, ?_⟩
    -- Two members of one number would be one member.
    have hpid : q.pid ≠ p.pid := by
      intro heq
      have hi : b.pids[i]? = some p.pid := by rw [Block.getElem?_pids, hp]; rfl
      have hj : b.pids[j]? = some p.pid := by rw [Block.getElem?_pids, hq, ← heq]; rfl
      have hlt : i < b.pids.length := (List.getElem?_eq_some_iff.mp hi).1
      exact hne ((List.getElem?_inj hlt h.distinct).mp (hi.trans hj.symm))
    rw [Block.reaped_markReaped, List.mem_append, List.mem_singleton, not_or]
    exact ⟨hlive, hpid⟩

/-- Waiting for the stages comes to the failure of a program, as that of its stage, or to an
    interrupt. -/
theorem waitStages_of_waiting (host : Host) (hsilent : setting.Silent) (positions : List Nat)
    (first : Option Failure) (hfirst : ∀ f, first = some f → f.isShell = true) (b : Block)
    (h : Waiting b positions) :
    (∀ f, (waitStages setting first positions host b).outcome = .error f →
        f.isReported = true) ∧
      ∀ f, (waitStages setting first positions host b).outcome = .ok (some f) →
        f.isShell = true := by
  induction positions generalizing first b with
  | nil =>
    refine ⟨fun f hf => ?_, fun f hf => hfirst f (Except.ok.inj hf)⟩
    cases hf
  | cons i rest ih =>
    obtain ⟨p, hp, hlive⟩ := h.live i List.mem_cons_self
    obtain ⟨hawaited, m, -, hstate⟩ := Group.wait_of_live host hsilent hp hlive
      (h.named p (List.mem_of_getElem? hp))
    have hnext := h.next hp m
    rw [← hstate] at hnext
    simp only [waitStages, Action.bind_apply, Action.attempt_apply, Result.andThen_ok]
    generalize Group.wait setting i host b = r at hawaited hnext
    obtain ⟨outcome, b', l⟩ := r
    -- An interrupt ends the waiting, and the status of a program does not.
    rcases hawaited with rfl | ⟨program, status, rfl⟩ | rfl
    · exact ih first hfirst b' hnext
    · refine ih _ (fun f hf => ?_) b' hnext
      -- The first failure stays, and this one counts if there was none before it.
      cases first with
      | none =>
        cases hf
        rfl
      | some f' => exact hfirst f hf
    · refine ⟨?_, fun f hf => ?_⟩
      · rintro _ ⟨⟩
        rfl
      · cases hf

/-! ## Whole pipelines -/

/-- After all stages have been started, all of them are to be waited for. -/
theorem waiting_of_gains {m : Machine} {b : Block} {n : Nat} (h : Gains { machine := m } n b)
    (hdistinct : b.pids.Nodup) : Waiting b (List.range n) := by
  obtain ⟨-, ps, hlength, hnamed, hgroup⟩ := h
  rw [List.nil_append] at hgroup
  refine ⟨hdistinct, ?_, List.nodup_range, fun i hi => ?_⟩
  · rw [Block.Named, hgroup]
    exact hnamed
  · have hlt : i < ps.length := by
      rw [hlength]
      exact List.mem_range.mp hi
    refine ⟨ps[i], ?_, ?_⟩
    · rw [Block.member?, hgroup]
      exact List.getElem?_eq_getElem hlt
    · rw [hgroup]
      exact List.not_mem_nil

/-- The block of a pipeline whose processes have distinct numbers. -/
theorem runStages_reported (hsilent : setting.Silent)
    (hpipes : ∀ n f, host.pipeFailures n = some f → f.isSystem = true) {stages : List Invocation}
    (hnull : ∀ stage ∈ stages, stage.argv.any Machine.hasNull = false) {m : Machine}
    (hsound : m.Sound)
    (hdistinct : (processes.acquired
      (startStages setting 0 none stages host { machine := m }).events).Nodup) {f : Failure}
    (hf : (runStages setting stages host { machine := m }).outcome = .error f) :
    f.isReported = true := by
  obtain ⟨hfails, hgains⟩ :=
    startStages_adds hsilent hpipes stages hnull 0 none { machine := m } hsound
  have hpids := (startStages_keeps (Group.starts_follows : Group.Starts setting _) stages 0 none
    host { machine := m }).pids
  rw [runStages_eq_tendStages] at hf
  rcases Action.outcome_bind_eq_error.mp hf with hstart | ⟨_, hstart, htend⟩
  · exact Failure.isReported_of_isShell (hfails f hstart)
  · have hwaiting := waiting_of_gains (hgains _ hstart) (hpids ▸ hdistinct)
    obtain ⟨hinterrupts, hprograms⟩ := waitStages_of_waiting host hsilent
      (List.range stages.length) none (fun _ h => nomatch h) _ hwaiting
    rcases tendStages_failure htend with hwait | hfound
    · exact hinterrupts f hwait
    · exact Failure.isReported_of_isShell (hprograms f hfound)

/-- What is started by a pipeline is started before any of it is waited for. -/
theorem startStages_prefix_run (setting : Setting) (host : Host) {stages : List (List String)}
    {invocations : List Invocation}
    (hstages : stages.mapM Invocation.ofWords = .ok invocations) (m : Machine) :
    (startStages setting 0 none invocations host { machine := m }).events
      <+: (run setting stages host m).events := by
  obtain ⟨l, hevents, -⟩ := (Group.tends_isTending setting).closing_bind
    (fun _ => tendStages_keeps (Group.tends_isTending setting) invocations) host { machine := m }
  rw [run, hstages]
  exact ⟨l, hevents.symm⟩

/-- A pipeline of words without null characters whose processes have distinct numbers fails with
    a failure that a read loop reports. -/
theorem run_reported (hsilent : setting.Silent)
    (hpipes : ∀ n f, host.pipeFailures n = some f → f.isSystem = true)
    {stages : List (List String)} (hnull : ∀ stage ∈ stages, stage.any Machine.hasNull = false)
    {m : Machine} (hsound : m.Sound)
    (hdistinct : DistinctInGroups (run setting stages host m).events) {f : Failure}
    (hf : (run setting stages host m).outcome = .error f) : f.isReported = true := by
  cases hstages : stages.mapM Invocation.ofWords with
  | error f' =>
    rw [run, hstages] at hf
    cases hf
    rfl
  | ok invocations =>
    obtain ⟨hargv, -⟩ := of_mapM_ofWords hstages
    have hnull' : ∀ stage ∈ invocations, stage.argv.any Machine.hasNull = false := by
      intro stage hstage
      apply hnull
      rw [← hargv]
      exact List.mem_map_of_mem hstage
    have hgroup := hdistinct _ (List.infix_refl _) (run_oneGroup setting stages host m)
    have hstarted : (processes.acquired (startStages setting 0 none invocations host
        { machine := m }).events).Nodup := by
      obtain ⟨l, hl⟩ := startStages_prefix_run setting host hstages m
      rw [← hl, Custody.acquired_append] at hgroup
      exact hgroup.of_append_left
    rw [run, hstages] at hf
    rcases Group.closing_failure hsilent hf with hbody | ⟨message, rfl⟩
    · exact runStages_reported hsilent hpipes hnull' hsound hstarted hbody
    · rfl

end LineShell.Pipeline
