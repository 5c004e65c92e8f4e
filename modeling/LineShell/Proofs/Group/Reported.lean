/-
  LineShell.Proofs.Group.Reported

  The failures of starts and waits.

  A read loop reports failures of the shell and interrupts, and goes on.  Where
  the system refuses starts only with failures of its own, and keeps the arguments
  of a process on record, a start fails with a failure of the shell, unless an
  argument holds a null character.  A wait for a live member comes to its status,
  to the failure of a program, or to an interrupt.
-/

import LineShell.Proofs.Action.Meets
import LineShell.Proofs.Failure
import LineShell.Proofs.Group.Events
import LineShell.Proofs.Group.Silent

namespace LineShell

/-- A refusal is one of the system, and a process has the arguments on record that it was
    started with. -/
def Behaviour.isSound : Behaviour → Bool
  | refused f => f.isSystem
  | started script => script.args?.isNone

/-- All starts to come behave so. -/
def Machine.Sound (m : Machine) : Prop :=
  ∀ program, ∀ behaviour ∈ m.programs program, behaviour.isSound = true

namespace Machine.Sound

variable {m : Machine}

theorem of_offers (h : m.Sound) {program : String} {behaviour : Behaviour}
    (hoffers : m.Offers program behaviour) : behaviour.isSound = true := by
  rcases hoffers with rfl | hmem
  · rfl
  · exact h program behaviour hmem

end Machine.Sound

/-- Behaviours are taken off the queues of the programs, and none are put there. -/
def Machine.Spends (m m' : Machine) : Prop :=
  ∀ program, m'.programs program <:+ m.programs program

theorem Machine.Spends.trans {m₁ m₂ m₃ : Machine} (h₁ : m₁.Spends m₂) (h₂ : m₂.Spends m₃) :
    m₁.Spends m₃ := fun program => (h₂ program).trans (h₁ program)

theorem Machine.Spends.isPath : IsPath fun m _ m' => Machine.Spends m m' where
  nil _ _ := List.suffix_rfl
  append := trans

theorem Machine.Sound.of_spends {m m' : Machine} (h : m.Sound) (hm : m.Spends m') : m'.Sound :=
  fun program behaviour hmem => h program behaviour ((hm program).subset hmem)

/-- Every member has a name to be reported under. -/
def Block.Named (b : Block) : Prop := ∀ p ∈ b.group.members, p.args ≠ []

namespace Group

variable {setting : Setting} {host : Host} {b : Block}

/-! ## Starting -/

/-- A start without null characters adds a member with a name, or fails with a failure of the
    shell. -/
theorem start_of_sound (host : Host) (hsilent : setting.Silent) (invocation : Invocation)
    (hnull : invocation.argv.any Machine.hasNull = false) (hsound : b.machine.Sound) :
    b.machine.Steady (start setting invocation host b).state.machine ∧
      ((∃ f, (start setting invocation host b).outcome = .error f ∧ f.isShell = true ∧
          (start setting invocation host b).state.group = b.group) ∨
        ∃ p : Process, (start setting invocation host b).outcome = .ok b.group.members.length ∧
          p.args ≠ [] ∧ (start setting invocation host b).state.group
            = { b.group with members := b.group.members ++ [p] }) := by
  have hspec := start_spec setting invocation host b
  generalize start setting invocation host b = r at hspec
  cases hspec with
  | refused h _ =>
    rw [hnull] at h
    cases h
  | failed hf hm =>
    refine ⟨hm, .inl ⟨_, rfl, ?_, rfl⟩⟩
    exact Failure.isShell_claimedFor (hsound.of_offers hf) .launch invocation.program
  -- The member has been added whether or not the observer fails, and it does not.
  | @running _ script nextPid outcome p _ hscript hp hm houtcome =>
    have hargs : script.args? = none := by
      simpa [Behaviour.isSound] using hsound.of_offers hscript
    refine ⟨hm, .inr ⟨p, hsilent.outcome_eq houtcome, ?_, rfl⟩⟩
    rw [hp]
    simp [Process.ofScript, hargs, Invocation.argv]

/-! ## Waiting -/

/-- What a wait for a live member can come to. -/
def Awaited (outcome : Except Failure Unit) : Prop :=
  outcome = .ok () ∨ (∃ program status, outcome = .error (.exitStatus program status)) ∨
    outcome = .error (.interrupt "")

theorem wait_of_live (host : Host) (hsilent : setting.Silent) {i : Nat} {p : Process}
    (hp : b.member? i = some p) (hlive : p.pid ∉ b.group.reaped) (hargs : p.args ≠ []) :
    Awaited (wait setting i host b).outcome ∧
      ∃ m, b.machine.Steady m ∧ (wait setting i host b).state =
        (({ b with machine := m } : Block).modifyMember i Process.ended).markReaped p.pid := by
  obtain ⟨outcome, m, message, hm, hreap, houtcome⟩ :=
    reap_of_silent host hsilent hp hlive
  refine ⟨?_, m, hm, by rw [state_wait, hreap]⟩
  -- A failure is reported under the first argument, so there has to be one.
  obtain ⟨program, rest, hprogram⟩ := List.exists_cons_of_ne_nil hargs
  rw [wait_apply, hreap]
  rcases houtcome with ⟨rfl, -⟩ | rfl
  · rw [Result.andThen_ok, Result.outcome_after, member?_ended hp]
    by_cases hstatus : p.status = 0
    · exact .inl (by simp [judge, hstatus])
    · refine .inr (.inl ⟨program, p.status, ?_⟩)
      simp [judge, hstatus, Process.program?, Process.ended, hprogram]
  · exact .inr (.inr rfl)

theorem Awaited.isReported {outcome : Except Failure Unit} (h : Awaited outcome) {f : Failure}
    (hf : outcome = .error f) : f.isReported = true := by
  rcases h with rfl | ⟨program, status, rfl⟩ | rfl
  · cases hf
  · cases hf
    rfl
  · cases hf
    rfl

/-! ## Queues -/

theorem starts_spends (setting : Setting) :
    Starts setting fun b _ b' => b.machine.Spends b'.machine where
  toIsPath := Machine.Spends.isPath.comap Block.machine
  start invocation host b := ((start_spec setting invocation host b).attempt).2.programs
  pipe host b := by
    simp only [Action.inBlock, Action.zoom_apply, Machine.pipe_apply]
    split <;> exact fun _ => List.suffix_rfl
  close _ _ _ := List.suffix_rfl

theorem tends_spends (setting : Setting) :
    Tends setting fun b _ b' => b.machine.Spends b'.machine where
  toIsPath := Machine.Spends.isPath.comap Block.machine
  log _ _ _ _ := List.suffix_rfl
  reap i host b := by
    have hspec := reap_spec setting i host b
    generalize reap setting i host b = r at hspec
    cases hspec with
    | absent => exact fun _ => List.suffix_rfl
    | again => exact fun _ => List.suffix_rfl
    | ended _ _ _ _ hm _ _ => exact hm.programs
  terminate _ _ _ := List.suffix_rfl

theorem foreground_spends (setting : Setting) (invocation : Invocation) :
    (foreground setting invocation).Keeps fun m _ m' => m.Spends m' :=
  foreground_keeps (starts_spends setting) (tends_spends setting) invocation

/-! ## Processes in the foreground -/

/-- A process in the foreground fails as its start does, with the failure of a program, or with
    an interrupt. -/
theorem foreground_reported (hsilent : setting.Silent) {invocation : Invocation}
    (hnull : invocation.argv.any Machine.hasNull = false) {m : Machine} (hsound : m.Sound)
    {f : Failure} (hf : (foreground setting invocation host m).outcome = .error f) :
    f.isReported = true := by
  obtain ⟨-, hstart⟩ := start_of_sound host (b := { machine := m }) hsilent invocation hnull hsound
  rw [foreground_eq_of_silent hsilent, Action.bind_apply] at hf
  generalize start setting invocation host { machine := m } = r at hstart hf
  obtain ⟨outcome, b, l⟩ := r
  rcases hstart with ⟨f', rfl, hshell, -⟩ | ⟨p, rfl, hargs, hgroup⟩
  · cases hf
    exact Failure.isReported_of_isShell hshell
  · -- The one member has just been started, so that the wait for it is the first one.
    have hmember : b.member? 0 = some p := by
      rw [Block.member?, hgroup]
      rfl
    have hlive : p.pid ∉ b.group.reaped := by
      rw [hgroup]
      simp
    obtain ⟨hawaited, -⟩ := wait_of_live host hsilent hmember hlive hargs
    exact hawaited.isReported hf

end Group

end LineShell
