/-
  LineShell.Proofs.Group.Silent

  Groups under an observer that never fails.

  Without failures of the observer a wait has two outcomes: the status of the
  member, or an interrupt.  Then nothing but interrupts can be met while a group
  is left, and where all members have been waited for, nothing at all is done.
  In particular a process in the foreground needs no leaving
  (`foreground_eq_of_silent`).
-/

import LineShell.Proofs.Group.Leaving

namespace LineShell

/-- The observer, if there is one, never fails. -/
def Setting.Silent (setting : Setting) : Prop :=
  ∀ hook, setting.hook = some hook → ∀ n event, hook n event = none

theorem Setting.Silent.not_answers {setting : Setting} (h : setting.Silent) {event : ProcessEvent}
    {f : Failure} : ¬ setting.Answers event f := by
  rintro ⟨hook, n, hhook, hanswer⟩
  rw [h hook hhook] at hanswer
  cases hanswer

theorem Setting.Silent.answer?_eq_none {setting : Setting} (h : setting.Silent) (calls : Nat)
    (event : ProcessEvent) : setting.answer? calls event = none :=
  Option.eq_none_iff_forall_ne_some.mpr fun _ hanswer =>
    h.not_answers (Setting.answers_of_answer? hanswer)

/-- What comes of an action that only the observer could have failed. -/
theorem Setting.Silent.outcome_eq {setting : Setting} (h : setting.Silent) {α : Type}
    {outcome expected : Except Failure α} {event : ProcessEvent}
    (houtcome : outcome = expected ∨ ∃ f, outcome = .error f ∧ setting.Answers event f) :
    outcome = expected := by
  refine houtcome.resolve_right ?_
  rintro ⟨f, -, hanswer⟩
  exact h.not_answers hanswer

theorem Setting.Silent.quietOnEnds {setting : Setting} (h : setting.Silent) :
    setting.QuietOnEnds := fun _ _ _ _ hanswer => absurd hanswer h.not_answers

/-- The failure that a wait makes of the status of a process, if it is not zero. -/
def Process.verdict? (p : Process) : Option Failure :=
  if p.status = 0 then none else p.program?.map fun program => .exitStatus program p.status

namespace Group

variable {setting : Setting} {host : Host} {b : Block} {α : Type}

/-! ## Waiting -/

/-- A member that has not been waited for is waited for until a wait is not interrupted; an
    interrupt, if there was one, comes out last. -/
theorem reap_apply (host : Host) (hsilent : setting.Silent) {i : Nat} {p : Process}
    (hp : b.member? i = some p) (hlive : p.pid ∉ b.group.reaped) :
    reap setting i host b =
      ⟨if 0 < p.interrupts then .error (.interrupt "") else .ok (some p.status),
        (({ b with machine := setting.told b.machine } : Block).modifyMember i
          Process.ended).markReaped p.pid,
        Process.waits p.pid p.status p.interrupts ++
          .log .process s!"reaped pid {p.pid} (status {p.status})" ::
            setting.notices (.reaped p.pid p.args p.status)⟩ := by
  rw [reap_of_live setting host hp hlive, hsilent.answer?_eq_none, Option.none_or,
    Process.interruption?]
  split <;> rfl

/-- A member that has not been waited for ends with its status, or else with an interrupt. -/
theorem reap_of_silent (host : Host) (hsilent : setting.Silent) {i : Nat} {p : Process}
    (hp : b.member? i = some p) (hlive : p.pid ∉ b.group.reaped) :
    ∃ outcome m message, b.machine.Steady m ∧
      reap setting i host b =
        ⟨outcome, (({ b with machine := m } : Block).modifyMember i Process.ended).markReaped p.pid,
          Process.waits p.pid p.status p.interrupts ++
            .log .process message :: setting.notices (.reaped p.pid p.args p.status)⟩ ∧
      (outcome = .ok (some p.status) ∧ p.interrupts = 0 ∨ outcome = .error (.interrupt "")) := by
  refine ⟨_, _, _, setting.told_steady b.machine, reap_apply host hsilent hp hlive, ?_⟩
  by_cases hinterrupts : 0 < p.interrupts
  · exact .inr (if_pos hinterrupts)
  · exact .inl ⟨if_neg hinterrupts, by omega⟩

/-- What a wait makes of the status that has been collected of a member. -/
def judge (status? : Option Int) (member? : Option Process) : Except Failure Unit :=
  if status? = some 0 then .ok ()
  else
    match member?.bind Process.program?, status? with
    | none, _ => .error outOfRange
    | some _, none => .error noStatus
    | some program, some status => .error (.exitStatus program status)

/-- After the member has been waited for, a wait only looks at what has come of it. -/
theorem wait_apply (setting : Setting) (i : Nat) (host : Host) (b : Block) :
    wait setting i host b = (reap setting i host b).andThen fun status? b' =>
      ⟨judge status? (b'.member? i), b', []⟩ := by
  rw [wait, Action.bind_apply]
  congr 1
  funext status? b'
  by_cases hstatus : status? = some 0
  · simp [judge, hstatus]
  · simp only [judge, if_neg hstatus, Action.bind_apply, Action.get_apply, Result.andThen_ok]
    cases (b'.member? i).bind Process.program? with
    | none => rfl
    | some program => cases status? <;> rfl

theorem state_wait (setting : Setting) (i : Nat) (host : Host) (b : Block) :
    (wait setting i host b).state = (reap setting i host b).state := by
  rw [wait_apply]
  exact Result.state_andThen_of_forall _ fun _ _ => rfl

theorem judge_failure {status? : Option Int} {member? : Option Process} {f : Failure}
    (hf : judge status? member? = .error f) :
    f = outOfRange ∨ f = noStatus ∨ ∃ program status, status ≠ 0 ∧ f = .exitStatus program status := by
  unfold judge at hf
  split at hf
  · cases hf
  · next hstatus =>
    split at hf
    · exact .inl (Except.error.inj hf).symm
    · exact .inr (.inl (Except.error.inj hf).symm)
    · next program status _ =>
      refine .inr (.inr ⟨program, status, ?_, (Except.error.inj hf).symm⟩)
      rintro rfl
      exact hstatus rfl

/-- All that a wait can fail with. -/
theorem wait_failure (hsilent : setting.Silent) {i : Nat} {f : Failure}
    (hf : (wait setting i host b).outcome = .error f) :
    f = .interrupt "" ∨ f = outOfRange ∨ f = noStatus ∨
      ∃ program status, status ≠ 0 ∧ f = .exitStatus program status := by
  have hspec := reap_spec setting i host b
  rw [wait_apply] at hf
  generalize reap setting i host b = r at hspec hf
  obtain ⟨outcome, b', l⟩ := r
  cases outcome with
  | ok status? => exact .inr (judge_failure hf)
  | error f' =>
    obtain rfl : f' = f := Except.error.inj hf
    cases hspec with
    | absent => exact .inr (.inl rfl)
    | ended _ _ _ _ _ houtcome =>
      exact .inl ((houtcome f' rfl).resolve_right hsilent.not_answers)

/-- A member with a name whose wait is not interrupted comes to its status. -/
theorem wait_of_uninterrupted (host : Host) (hsilent : setting.Silent) {i : Nat} {p : Process}
    (hp : b.member? i = some p) (hlive : p.pid ∉ b.group.reaped) (hnamed : p.args ≠ [])
    (hinterrupts : p.interrupts = 0) :
    wait setting i host b =
      ⟨p.verdict?.elim (.ok ()) .error,
        (({ b with machine := setting.told b.machine } : Block).modifyMember i
          Process.ended).markReaped p.pid,
        .wait p.pid (some p.status) ::
          .log .process s!"reaped pid {p.pid} (status {p.status})" ::
            setting.notices (.reaped p.pid p.args p.status)⟩ := by
  obtain ⟨program, args, hargs⟩ := List.exists_cons_of_ne_nil hnamed
  rw [wait_apply, reap_apply host hsilent hp hlive, hinterrupts, if_neg (Nat.lt_irrefl 0),
    Result.andThen_ok, member?_ended hp]
  by_cases hstatus : p.status = 0
  · simp [judge, Process.verdict?, hstatus, Process.waits]
  · simp [judge, Process.verdict?, hstatus, Process.waits, Process.program?, Process.ended, hargs]

/-! ## Leaving -/

/-- Nobody is waited for twice. -/
theorem release_of_reaped {stopping : Bool} {i : Nat}
    (h : ∀ p, b.member? i = some p → p.pid ∈ b.group.reaped) :
    release setting stopping i host b = ⟨.ok none, b, []⟩ := by
  have hspec := release_spec setting stopping i host b
  generalize release setting stopping i host b = r at hspec
  cases hspec with
  | absent => rfl
  | again => rfl
  | waited hp hlive => exact absurd (h _ hp) hlive
  | stopped _ hp hlive => exact absurd (h _ hp) hlive

theorem releaseAll_of_reaped {positions : List Nat} {stopping : Bool}
    {interrupt : Option Failure}
    (h : ∀ i ∈ positions, ∀ p, b.member? i = some p → p.pid ∈ b.group.reaped) :
    releaseAll setting stopping interrupt positions host b = ⟨.ok interrupt, b, []⟩ := by
  induction positions with
  | nil => rfl
  | cons i rest ih =>
    rw [releaseAll, Action.bind_apply, release_of_reaped (h i List.mem_cons_self),
      Result.andThen_ok, Result.after_nil]
    exact ih fun j hj => h j (List.mem_cons_of_mem i hj)

/-- A group whose members have all been waited for is left without further ado. -/
theorem leave_of_reaped (outcome : Except Failure α)
    (h : ∀ i p, b.member? i = some p → p.pid ∈ b.group.reaped) :
    leave setting outcome host b = ⟨outcome, b, []⟩ := by
  have hrelease : ∀ stopping, releaseAll setting stopping none
      (List.range b.group.members.length) host b = ⟨.ok none, b, []⟩ :=
    fun stopping => releaseAll_of_reaped fun i _ p => h i p
  cases outcome with
  | error f =>
    simp only [leave, Action.bind_apply, Action.get_apply, Result.andThen_ok, hrelease]
    rfl
  | ok a =>
    simp only [leave, Action.bind_apply, Action.get_apply, Result.andThen_ok, hrelease]
    rfl

/-- The failure of a block is that of its group. -/
theorem outcome_leave_error (hquiet : setting.QuietOnEnds) (f : Failure) :
    (leave setting (.error f : Except Failure α) host b).outcome = .error f := by
  obtain ⟨found, hfound⟩ := releaseAll_quiet hquiet (List.range b.group.members.length) true none
    host b
  simp only [leave, Action.bind_apply, Action.get_apply, Result.andThen_ok]
  generalize releaseAll setting true none _ host b = r at hfound
  obtain ⟨outcome, b', l⟩ := r
  cases hfound
  rfl

/-! ## Processes in the foreground -/

/-- A process that has been started in the foreground is waited for before its group is left. -/
theorem foreground_reaped (host : Host) (hsilent : setting.Silent) (invocation : Invocation)
    (m : Machine) :
    ∀ i p, ((start setting invocation >>= wait setting) host { machine := m }).state.member? i
        = some p →
      p.pid ∈ ((start setting invocation >>= wait setting) host
        { machine := m }).state.group.reaped := by
  have hspec := start_spec setting invocation host { machine := m }
  rw [Action.bind_apply]
  generalize start setting invocation host { machine := m } = r at hspec
  cases hspec with
  | refused => simp [Block.member?]
  | failed => simp [Block.member?]
  | @running m' _ _ outcome p message _ _ _ houtcome =>
    obtain rfl : outcome = .ok 0 := hsilent.outcome_eq houtcome
    -- The one member is live, so that the wait marks it.
    have hmember : (({ machine := m' } : Block).addMember p).member? 0 = some p := rfl
    obtain ⟨outcome, m'', _, -, hreap, -⟩ := reap_of_silent host hsilent hmember
      (by simp)
    rw [Result.andThen_ok, Result.state_after, state_wait, hreap]
    intro i q hq
    have hpids : q.pid ∈ [p.pid] := by
      have hmem := Block.mem_pids_of_member? hq
      rwa [Block.pids_markReaped, Block.pids_ended] at hmem
    simpa using hpids

/-- Leaving the group of a process in the foreground has nothing to do. -/
theorem foreground_eq_of_silent (hsilent : setting.Silent) (invocation : Invocation)
    (m : Machine) :
    foreground setting invocation host m =
      ((start setting invocation >>= wait setting) host { machine := m }).mapState
        Block.machine := by
  have hreaped := foreground_reaped host hsilent invocation m
  -- Whatever has come of the block, all its members have been waited for.
  show ((start setting invocation >>= wait setting).attempt >>= leave setting).zoom
    (fun m => { machine := m }) (fun b _ => b.machine) host m = _
  simp only [Action.zoom_apply, Action.bind_apply (Action.attempt _), Action.attempt_apply,
    Result.andThen_ok, leave_of_reaped _ hreaped, Result.after_mk, List.append_nil]
  rfl

end Group

end LineShell
