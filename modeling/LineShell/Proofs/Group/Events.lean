/-
  LineShell.Proofs.Group.Events

  The events of a process in the foreground.

  An attempt to start a process hands on what has been written, and then causes at
  most one event of the system, unless it is refused before that.  After the
  attempt the group is only tended, and tending causes nothing but waits,
  terminations, calls of the observer and diagnostics.
-/

import LineShell.Proofs.Group.Tends

namespace LineShell

/-- Whether the event is one of those that tending the members of a group causes. -/
def Event.isTending : Event → Bool
  | .wait .. | .terminate _ | .hook _ | .log .. => true
  | _ => false

namespace Group

/-- The events of an attempt to start a process, and whether it comes to a position. -/
inductive Attempt (setting : Setting) (invocation : Invocation) : Bool → List Event → Prop
  | refused (m : Machine) (hnull : invocation.argv.any Machine.hasNull = true) :
      Attempt setting invocation false m.flushed
  | failed (m : Machine) : Attempt setting invocation false
      (m.flushed ++ [.spawnFailed invocation.argv invocation.stdin invocation.stdout])
  | running (ok : Bool) (m : Machine) (pid : Int) (message : String) :
      Attempt setting invocation ok (m.flushed ++
        .spawn pid invocation.argv invocation.stdin invocation.stdout invocation.stderr
            setting.environment ::
          .log .process message :: setting.notices (.spawned pid invocation.argv))

theorem Started.attempt {setting : Setting} {invocation : Invocation} {b : Block}
    {r : Result Block Nat} (h : Started setting invocation b r) :
    Attempt setting invocation r.outcome.isOk r.events ∧ b.machine.Steady r.state.machine := by
  cases h with
  | refused hnull hm => exact ⟨.refused b.machine hnull, hm⟩
  | failed _ hm => exact ⟨.failed b.machine, hm⟩
  | running outcome p message _ _ hm _ => exact ⟨.running _ b.machine p.pid message, hm⟩

/-- What holds of each event that an attempt can cause. -/
theorem Attempt.forall_mem {setting : Setting} {invocation : Invocation} {ok : Bool}
    {a : List Event} (h : Attempt setting invocation ok a) {P : Event → Prop}
    (hout : ∀ text, P (.out .standard text)) (hlog : ∀ message, P (.log .process message))
    (hhook : ∀ event, P (.hook event))
    (hfailed : P (.spawnFailed invocation.argv invocation.stdin invocation.stdout))
    (hspawn : ∀ pid, P (.spawn pid invocation.argv invocation.stdin invocation.stdout
      invocation.stderr setting.environment)) : ∀ e ∈ a, P e := by
  have hflushed : ∀ m : Machine, ∀ e ∈ m.flushed, P e := by
    intro m e he
    obtain ⟨text, rfl⟩ := Machine.mem_flushed he
    exact hout text
  cases h with
  | refused m => exact hflushed m
  | failed m =>
    intro e he
    rcases List.mem_append.mp he with he | he
    · exact hflushed m e he
    · rw [List.mem_singleton.mp he]
      exact hfailed
  | running _ m pid message =>
    intro e he
    rcases List.mem_append.mp he with he | he
    · exact hflushed m e he
    · rcases List.mem_cons.mp he with rfl | he
      · exact hspawn pid
      · rcases List.mem_cons.mp he with rfl | he
        · exact hlog message
        · rw [Setting.mem_notices he]
          exact hhook _

theorem tends_isTending (setting : Setting) :
    Tends setting fun _ l _ => ∀ e ∈ l, e.isTending = true where
  toIsPath := .forall_mem _
  log _ _ _ := List.forall_mem_singleton.mpr rfl
  reap i host b := by
    have hspec := reap_spec setting i host b
    generalize reap setting i host b = r at hspec
    cases hspec with
    | absent => rintro e ⟨⟩
    | again => rintro e ⟨⟩
    | ended =>
      intro e he
      rcases List.mem_append.mp he with he | he
      · obtain ⟨status?, rfl⟩ := Process.mem_waits he
        rfl
      · rcases List.mem_cons.mp he with rfl | he
        · rfl
        · rw [Setting.mem_notices he]
          rfl
  terminate _ _ := List.forall_mem_singleton.mpr rfl

/-- The events of a process in the foreground: those of the attempt to start it, and those of
    tending its group. -/
theorem events_foreground (setting : Setting) (invocation : Invocation) (host : Host)
    (m : Machine) :
    ∃ ok a tending, (foreground setting invocation host m).events = a ++ tending ∧
      Attempt setting invocation ok a ∧ ∀ e ∈ tending, e.isTending = true := by
  have htends := tends_isTending setting
  obtain ⟨tending, hevents, htending⟩ := htends.closing_bind
    (fun position => htends.wait position) host { machine := m }
  obtain ⟨hattempt, -⟩ := (start_spec setting invocation host { machine := m }).attempt
  exact ⟨_, _, tending, hevents, hattempt, htending⟩

end Group

end LineShell
