/-
  LineShell.Proofs.Group.Launched

  Starts that the system grants, and starts that it refuses.

  What becomes of a start depends on the queues of the programs and on the number
  of the next process, and on nothing else of the machine (`launch_alike`).  So a
  start inside of a group, whatever streams it is given, comes to the process that
  it comes to by itself (`start_of_launch`), and is refused if it is refused by
  itself (`start_of_refused`).
-/

import LineShell.Proofs.Failure
import LineShell.Proofs.Group.Events
import LineShell.Proofs.Group.Silent

namespace LineShell

/-- Two machines that the start of a process cannot tell apart. -/
structure Machine.Alike (m m' : Machine) : Prop where
  programs : m'.programs = m.programs
  nextPid : m'.nextPid = m.nextPid

variable {m m' : Machine}

theorem Machine.Alike.takeBehaviour (h : m.Alike m') (program : String) :
    (m'.takeBehaviour program).1 = (m.takeBehaviour program).1 ∧
      (m.takeBehaviour program).2.Alike (m'.takeBehaviour program).2 := by
  unfold Machine.takeBehaviour
  rw [h.programs]
  split
  · exact ⟨rfl, h⟩
  · exact ⟨rfl, h⟩
  · exact ⟨rfl, rfl, h.nextPid⟩

namespace Process

/-- A start comes to the same on machines that it cannot tell apart, whatever its streams are. -/
theorem launch_alike (h : m.Alike m') (invocation : Invocation) (stdin stdout : Stream)
    (environment : Option Environment) (host : Host) :
    (launch { invocation with stdin, stdout } environment host m').outcome
        = (launch invocation environment host m).outcome ∧
      (launch invocation environment host m).state.Alike
        (launch { invocation with stdin, stdout } environment host m').state := by
  by_cases hnull : invocation.argv.any Machine.hasNull = true
  · have hargv : ({ invocation with stdin, stdout } : Invocation).argv.any Machine.hasNull
        = true := hnull
    rw [launch_of_null hnull, launch_of_null hargv]
    exact ⟨rfl, h⟩
  · have hnull : invocation.argv.any Machine.hasNull = false := Bool.eq_false_iff.mpr hnull
    have hargv : ({ invocation with stdin, stdout } : Invocation).argv.any Machine.hasNull
        = false := hnull
    rw [launch_apply hnull, launch_apply hargv]
    obtain ⟨hbehaviour, halike⟩ := h.takeBehaviour invocation.program
    generalize m.takeBehaviour invocation.program = taken at hbehaviour halike
    generalize m'.takeBehaviour invocation.program = taken' at hbehaviour halike
    obtain ⟨behaviour, m₁⟩ := taken
    obtain ⟨_, m₁'⟩ := taken'
    cases hbehaviour
    have hnextPid : m₁'.nextPid = m₁.nextPid := halike.nextPid
    cases behaviour with
    | refused f => exact ⟨rfl, halike⟩
    | started script =>
      simp only [hnextPid]
      exact ⟨rfl, halike.programs, rfl⟩

/-- The one event of a start that the system grants. -/
theorem events_launch_of_ok {invocation : Invocation} {environment : Option Environment}
    {host : Host} {p : Process} (h : (launch invocation environment host m).outcome = .ok p) :
    (launch invocation environment host m).events =
      [.spawn p.pid invocation.argv invocation.stdin invocation.stdout invocation.stderr
        environment] := by
  obtain ⟨-, hlaunch⟩ | ⟨m', -, ⟨f, -, hlaunch⟩ | ⟨script, nextPid, -, hlaunch⟩⟩ :=
    launch_spec invocation environment host m
  · rw [hlaunch] at h
    cases h
  · rw [hlaunch] at h
    cases h
  · rw [hlaunch] at h ⊢
    cases h
    rfl

/-- The one event of a start that the system refuses. -/
theorem events_launch_of_refused {invocation : Invocation} {environment : Option Environment}
    {host : Host} {f : Failure}
    (h : (launch invocation environment host m).outcome = .error f) (hf : f.isSystem = true) :
    (launch invocation environment host m).events =
      [.spawnFailed invocation.argv invocation.stdin invocation.stdout] := by
  obtain ⟨-, hlaunch⟩ | ⟨m', -, ⟨f', -, hlaunch⟩ | ⟨script, nextPid, -, hlaunch⟩⟩ :=
    launch_spec invocation environment host m
  -- A null character is refused too, but not by the system.
  · rw [hlaunch] at h
    cases h
    cases hf
  · rw [hlaunch]
  · rw [hlaunch] at h
    cases h

end Process

namespace Group

variable {setting : Setting} {host : Host} {b : Block} {p : Process}

/-- A start inside of a group comes to the process that the start by itself comes to. -/
theorem start_of_launch (hsilent : setting.Silent) {invocation : Invocation}
    (hlaunch : (Process.launch invocation setting.environment host m).outcome = .ok p)
    (halike : m.Alike b.machine) (stdin stdout : Stream) :
    ∃ m' message, start setting { invocation with stdin, stdout } host b =
        ⟨.ok b.group.members.length, ({ b with machine := m' } : Block).addMember p,
          b.machine.flushed ++
            .spawn p.pid invocation.argv stdin stdout invocation.stderr setting.environment ::
              .log .process message :: setting.notices (.spawned p.pid invocation.argv)⟩ ∧
      b.machine.Steady m' ∧
      (Process.launch invocation setting.environment host m).state.Alike m' := by
  -- What has been written goes out first, which the start does not notice.
  have hflushed : m.Alike { b.machine with standardBuffer := "" } :=
    ⟨halike.programs, halike.nextPid⟩
  obtain ⟨houtcome, hstate⟩ :=
    Process.launch_alike hflushed invocation stdin stdout setting.environment host
  have hevents := Process.events_launch_of_ok (houtcome.trans hlaunch)
  have hsteady := ((start_spec setting { invocation with stdin, stdout } host b).attempt).2
  rw [hlaunch] at houtcome
  rw [start_apply] at hsteady ⊢
  generalize Process.launch { invocation with stdin, stdout } setting.environment host
    { b.machine with standardBuffer := "" } = r at houtcome hstate hevents hsteady
  obtain ⟨_, m', _⟩ := r
  cases houtcome
  cases hevents
  refine ⟨setting.told m', s!"spawned pid {p.pid}: {Text.quotedList invocation.argv}", ?_,
    hsteady, hstate.programs, hstate.nextPid⟩
  rw [joined, hsilent.answer?_eq_none]
  rfl

/-- A start inside of a group is refused as the start by itself is. -/
theorem start_of_refused {invocation : Invocation} {f : Failure}
    (hlaunch : (Process.launch invocation setting.environment host m).outcome = .error f)
    (hf : f.isSystem = true) (halike : m.Alike b.machine) (stdin stdout : Stream) :
    ∃ m', start setting { invocation with stdin, stdout } host b =
      ⟨.error (f.claimedFor .launch invocation.program), { b with machine := m' },
        b.machine.flushed ++ [.spawnFailed invocation.argv stdin stdout]⟩ := by
  have hflushed : m.Alike { b.machine with standardBuffer := "" } :=
    ⟨halike.programs, halike.nextPid⟩
  obtain ⟨houtcome, -⟩ :=
    Process.launch_alike hflushed invocation stdin stdout setting.environment host
  have hevents := Process.events_launch_of_refused (houtcome.trans hlaunch) hf
  rw [hlaunch] at houtcome
  rw [start_apply]
  generalize Process.launch { invocation with stdin, stdout } setting.environment host
    { b.machine with standardBuffer := "" } = r at houtcome hevents
  obtain ⟨_, m', _⟩ := r
  cases houtcome
  cases hevents
  exact ⟨m', rfl⟩

end Group

end LineShell
