/-
  LineShell.Proofs.Group.Inversion

  What a start and a wait can come to.

  One inversion lemma for each of the two operations says all that can have
  happened: the events, the members and the numbers waited for, and that the rest
  of the machine is as it was.  What follows about groups cites these lemmas, and
  does not look into the operations.
-/

import LineShell.Action.Lemmas
import LineShell.Group.Basic

namespace LineShell

/-- Nothing has changed but the queues of the programs, the numbers of processes, the calls
    of the observer and the text that waits for the standard output. -/
structure Machine.Steady (m m' : Machine) : Prop where
  /-- A start takes a behaviour off the queue of its program. -/
  programs : ∀ program, m'.programs program <:+ m.programs program
  pipeCalls : m'.pipeCalls = m.pipeCalls
  nextDescriptor : m'.nextDescriptor = m.nextDescriptor
  cwd : m'.cwd = m.cwd
  files : m'.files = m.files
  handler : m'.handler = m.handler
  installCalls : m'.installCalls = m.installCalls
  customBuffer : m'.customBuffer = m.customBuffer

namespace Machine

theorem Steady.refl (m : Machine) : m.Steady m :=
  ⟨fun _ => List.suffix_rfl, rfl, rfl, rfl, rfl, rfl, rfl, rfl⟩

theorem Steady.trans {m₁ m₂ m₃ : Machine} (h₁ : m₁.Steady m₂) (h₂ : m₂.Steady m₃) :
    m₁.Steady m₃ where
  programs program := (h₂.programs program).trans (h₁.programs program)
  pipeCalls := h₂.pipeCalls.trans h₁.pipeCalls
  nextDescriptor := h₂.nextDescriptor.trans h₁.nextDescriptor
  cwd := h₂.cwd.trans h₁.cwd
  files := h₂.files.trans h₁.files
  handler := h₂.handler.trans h₁.handler
  installCalls := h₂.installCalls.trans h₁.installCalls
  customBuffer := h₂.customBuffer.trans h₁.customBuffer

/-- The events of a flush of the standard output. -/
def flushed (m : Machine) : List Event :=
  if (m.buffer .standard).isEmpty then [] else [.out .standard (m.buffer .standard)]

theorem mem_flushed {m : Machine} {e : Event} (he : e ∈ m.flushed) :
    ∃ text, e = .out .standard text := by
  unfold flushed at he
  split at he
  · cases he
  · exact ⟨_, List.mem_singleton.mp he⟩

theorem flush_standard_apply (host : Host) (m : Machine) :
    flush .standard host m = ⟨.ok (), { m with standardBuffer := "" }, m.flushed⟩ := by
  simp only [flush, Action.bind_apply, Action.get_apply, Result.andThen_ok, flushed]
  by_cases hempty : (m.buffer .standard).isEmpty = true
  · have htext : m.standardBuffer = "" := String.isEmpty_iff.mp hempty
    rw [if_pos hempty, if_pos hempty, ← htext]
    rfl
  · rw [if_neg hempty, if_neg hempty]
    rfl

/-- A call for a pipe fails as the host says, and otherwise hands out two new descriptors. -/
theorem pipe_apply (host : Host) (m : Machine) :
    pipe host m =
      match host.pipeFailures m.pipeCalls with
      | some f => ⟨.error f, { m with pipeCalls := m.pipeCalls + 1 }, [.pipeFailed]⟩
      | none => ⟨.ok (m.nextDescriptor, m.nextDescriptor + 1),
          { m with pipeCalls := m.pipeCalls + 1, nextDescriptor := m.nextDescriptor + 2 },
          [.pipe m.nextDescriptor (m.nextDescriptor + 1)]⟩ := by
  simp only [pipe, Action.bind_apply, Action.get_apply, Action.modify_apply, Action.host_apply,
    Result.andThen_ok]
  cases host.pipeFailures m.pipeCalls <;> rfl

theorem takeBehaviour_steady (m : Machine) (program : String) :
    m.Steady (m.takeBehaviour program).2 := by
  unfold takeBehaviour
  split
  · exact Steady.refl m
  · exact Steady.refl m
  · next next later _ hqueue =>
    refine ⟨fun p => ?_, rfl, rfl, rfl, rfl, rfl, rfl, rfl⟩
    show (if p = program then later else m.programs p) <:+ m.programs p
    split
    · next h =>
      rw [h, hqueue]
      exact List.suffix_cons next later
    · exact List.suffix_rfl

/-- What a start of a program can lead to as things stand. -/
def Offers (m : Machine) (program : String) (behaviour : Behaviour) : Prop :=
  behaviour = .refused .noSuchFile ∨ behaviour ∈ m.programs program

theorem takeBehaviour_offers (m : Machine) (program : String) :
    m.Offers program (m.takeBehaviour program).1 := by
  unfold takeBehaviour
  split
  · exact .inl rfl
  · next last hqueue => exact .inr (by simp [hqueue])
  · next next later _ hqueue => exact .inr (by simp [hqueue])

end Machine

namespace Setting

/-- The call of the observer, if there is one. -/
def notices (setting : Setting) (event : ProcessEvent) : List Event :=
  if setting.hook.isSome then [.hook event] else []

theorem mem_notices {setting : Setting} {event : ProcessEvent} {e : Event}
    (he : e ∈ setting.notices event) : e = .hook event := by
  unfold notices at he
  split at he
  · exact List.mem_singleton.mp he
  · cases he

/-- How the observer can answer what it is told. -/
def Answers (setting : Setting) (event : ProcessEvent) (f : Failure) : Prop :=
  ∃ hook n, setting.hook = some hook ∧ hook n event = some f

/-- How the observer answers its call at a position, if there is one. -/
def answer? (setting : Setting) (calls : Nat) (event : ProcessEvent) : Option Failure :=
  setting.hook.bind fun hook => hook calls event

theorem answers_of_answer? {setting : Setting} {calls : Nat} {event : ProcessEvent} {f : Failure}
    (h : setting.answer? calls event = some f) : setting.Answers event f := by
  obtain ⟨hook, hhook, hanswer⟩ := Option.bind_eq_some_iff.mp h
  exact ⟨hook, calls, hhook, hanswer⟩

/-- The machine after the observer, if there is one, has been told something. -/
def told (setting : Setting) (m : Machine) : Machine :=
  { m with hookCalls := if setting.hook.isSome then m.hookCalls + 1 else m.hookCalls }

theorem told_steady (setting : Setting) (m : Machine) : m.Steady (setting.told m) :=
  ⟨fun _ => List.suffix_rfl, rfl, rfl, rfl, rfl, rfl, rfl, rfl⟩

/-- The observer is told, and what it answers comes out. -/
theorem notify_apply (setting : Setting) (event : ProcessEvent) (host : Host) (m : Machine) :
    setting.notify event host m =
      ⟨(setting.answer? m.hookCalls event).elim (.ok ()) .error, setting.told m,
        setting.notices event⟩ := by
  unfold notify answer? told notices
  cases hhook : setting.hook with
  | none => simp
  | some hook => cases hanswer : hook m.hookCalls event <;> simp [hanswer]

end Setting

namespace Process

/-- The events of waiting for a process whose waits are interrupted a number of times. -/
def waits (pid status : Int) (interrupts : Nat) : List Event :=
  List.replicate interrupts (.wait pid none) ++ [.wait pid (some status)]

theorem mem_waits {pid status : Int} {interrupts : Nat} {e : Event}
    (he : e ∈ waits pid status interrupts) : ∃ status?, e = .wait pid status? := by
  rcases List.mem_append.mp he with he | he
  · exact ⟨none, List.eq_of_mem_replicate he⟩
  · exact ⟨some status, List.mem_singleton.mp he⟩

/-- The interrupt that waiting for the process is reported with, if one of its waits is
    interrupted. -/
def interruption? (p : Process) : Option Failure :=
  if 0 < p.interrupts then some (.interrupt "") else none

theorem awaitEnd_apply {σ : Type} (pid status : Int) (interrupts : Nat) (host : Host) (s : σ) :
    awaitEnd pid status interrupts host s =
      ⟨.ok (decide (0 < interrupts)), s, waits pid status interrupts⟩ := by
  induction interrupts with
  | zero => rfl
  | succ n ih => simp [awaitEnd, ih, waits, List.replicate_succ]

/-- A launch with a null character is refused before the system is asked. -/
theorem launch_of_null {invocation : Invocation}
    (hnull : invocation.argv.any Machine.hasNull = true) (environment : Option Environment)
    (host : Host) (m : Machine) :
    launch invocation environment host m = ⟨.error .embeddedNull, m, []⟩ := by
  simp [launch, hnull]

/-- A launch without null characters takes the next behaviour of the program and goes by it. -/
theorem launch_apply {invocation : Invocation}
    (hnull : invocation.argv.any Machine.hasNull = false) (environment : Option Environment)
    (host : Host) (m : Machine) :
    launch invocation environment host m =
      match m.takeBehaviour invocation.program with
      | (.refused f, m') =>
        ⟨.error f, m', [.spawnFailed invocation.argv invocation.stdin invocation.stdout]⟩
      | (.started script, m') =>
        let p := ofScript script m'.nextPid invocation.argv
        ⟨.ok p, { m' with nextPid := if script.pid?.isNone then m'.nextPid + 1 else m'.nextPid },
          [.spawn p.pid invocation.argv invocation.stdin invocation.stdout invocation.stderr
            environment]⟩ := by
  simp only [launch, hnull, Bool.false_eq_true, if_false, Action.bind_apply, Action.get_apply,
    Action.modify_apply, Result.andThen_ok, Result.after_nil]
  obtain ⟨behaviour, m'⟩ := m.takeBehaviour invocation.program
  cases behaviour with
  | refused f => rfl
  | started script => cases hpid : script.pid? <;> simp [hpid]

/-- What a launch can come to. -/
theorem launch_spec (invocation : Invocation) (environment : Option Environment) (host : Host)
    (m : Machine) :
    (invocation.argv.any Machine.hasNull = true ∧
        launch invocation environment host m = ⟨.error .embeddedNull, m, []⟩) ∨
      ∃ m', m.Steady m' ∧
        ((∃ f, m.Offers invocation.program (.refused f) ∧
            launch invocation environment host m =
              ⟨.error f, m', [.spawnFailed invocation.argv invocation.stdin invocation.stdout]⟩) ∨
          ∃ script nextPid, m.Offers invocation.program (.started script) ∧
            launch invocation environment host m =
              ⟨.ok (ofScript script nextPid invocation.argv), m',
                [.spawn (ofScript script nextPid invocation.argv).pid invocation.argv
                  invocation.stdin invocation.stdout invocation.stderr environment]⟩) := by
  by_cases hnull : invocation.argv.any Machine.hasNull = true
  · exact .inl ⟨hnull, launch_of_null hnull environment host m⟩
  · refine .inr ?_
    have hsteady := m.takeBehaviour_steady invocation.program
    have hoffers := m.takeBehaviour_offers invocation.program
    rw [launch_apply (Bool.eq_false_iff.mpr hnull)]
    generalize m.takeBehaviour invocation.program = taken at hsteady hoffers
    obtain ⟨behaviour, m'⟩ := taken
    cases behaviour with
    | refused f => exact ⟨m', hsteady, .inl ⟨f, hoffers, rfl⟩⟩
    | started script =>
      have hnumbered : m'.Steady
          { m' with nextPid := if script.pid?.isNone then m'.nextPid + 1 else m'.nextPid } :=
        ⟨fun _ => List.suffix_rfl, rfl, rfl, rfl, rfl, rfl, rfl, rfl⟩
      exact ⟨_, hsteady.trans hnumbered, .inr ⟨script, m'.nextPid, hoffers, rfl⟩⟩

end Process

/-! ## Members -/

namespace Block

/-- The numbers of the members. -/
def pids (b : Block) : List Int := b.group.members.map Process.pid

@[simp] theorem pids_addMember (b : Block) (p : Process) :
    (b.addMember p).pids = b.pids ++ [p.pid] := List.map_append ..

@[simp] theorem reaped_addMember (b : Block) (p : Process) :
    (b.addMember p).group.reaped = b.group.reaped := rfl

/-- A change that leaves the number of a member alone. -/
theorem pids_modifyMember (b : Block) (i : Nat) {f : Process → Process}
    (hf : ∀ p, (f p).pid = p.pid) : (b.modifyMember i f).pids = b.pids := by
  apply List.ext_getElem
  · simp [pids, modifyMember]
  · intro j h₁ h₂
    simp only [pids, modifyMember, List.getElem_map, List.getElem_modify]
    split
    · exact hf _
    · rfl

@[simp] theorem pids_terminated (b : Block) (i : Nat) :
    (b.modifyMember i Process.terminated).pids = b.pids := b.pids_modifyMember i fun _ => rfl

@[simp] theorem pids_ended (b : Block) (i : Nat) :
    (b.modifyMember i Process.ended).pids = b.pids := b.pids_modifyMember i fun _ => rfl

theorem member?_modifyMember (b : Block) (i : Nat) (f : Process → Process) :
    (b.modifyMember i f).member? i = (b.member? i).map f := List.getElem?_modify_eq ..

theorem member?_modifyMember_ite (b : Block) (i j : Nat) (f : Process → Process) :
    (b.modifyMember j f).member? i = (b.member? i).map fun p => if j = i then f p else p :=
  List.getElem?_modify ..

theorem member?_modifyMember_of_ne (b : Block) {i j : Nat} (h : j ≠ i) (f : Process → Process) :
    (b.modifyMember j f).member? i = b.member? i := List.getElem?_modify_ne f _ h

@[simp] theorem reaped_modifyMember (b : Block) (i : Nat) (f : Process → Process) :
    (b.modifyMember i f).group.reaped = b.group.reaped := rfl

@[simp] theorem pids_markReaped (b : Block) (pid : Int) : (b.markReaped pid).pids = b.pids := rfl

@[simp] theorem reaped_markReaped (b : Block) (pid : Int) :
    (b.markReaped pid).group.reaped = b.group.reaped ++ [pid] := rfl

theorem getElem?_pids (b : Block) (i : Nat) : b.pids[i]? = (b.member? i).map Process.pid :=
  List.getElem?_map ..

theorem mem_pids_of_member? {b : Block} {i : Nat} {p : Process} (h : b.member? i = some p) :
    p.pid ∈ b.pids := by
  apply List.mem_of_getElem? (i := i)
  rw [getElem?_pids, h]
  rfl

end Block

namespace Group

/-! ## Starting -/

/-- What a start can come to. -/
inductive Started (setting : Setting) (invocation : Invocation) (b : Block) :
    Result Block Nat → Prop
  /-- An argument is refused before the system is asked. -/
  | refused {m : Machine} (hnull : invocation.argv.any Machine.hasNull = true)
      (hm : b.machine.Steady m) :
      Started setting invocation b
        ⟨.error .embeddedNull, { b with machine := m }, b.machine.flushed⟩
  | failed {m : Machine} {f : Failure} (hf : b.machine.Offers invocation.program (.refused f))
      (hm : b.machine.Steady m) :
      Started setting invocation b
        ⟨.error (f.claimedFor .launch invocation.program), { b with machine := m },
          b.machine.flushed ++
            [.spawnFailed invocation.argv invocation.stdin invocation.stdout]⟩
  /-- There is a new member, also where the observer fails. -/
  | running {m : Machine} {script : ProcessScript} {nextPid : Int} (outcome : Except Failure Nat)
      (p : Process) (message : String)
      (hscript : b.machine.Offers invocation.program (.started script))
      (hp : p = Process.ofScript script nextPid invocation.argv) (hm : b.machine.Steady m)
      (houtcome : outcome = .ok b.group.members.length ∨
        ∃ f, outcome = .error f ∧ setting.Answers (.spawned p.pid invocation.argv) f) :
      Started setting invocation b
        ⟨outcome, ({ b with machine := m } : Block).addMember p, b.machine.flushed ++
          .spawn p.pid invocation.argv invocation.stdin invocation.stdout invocation.stderr
              setting.environment ::
            .log .process message :: setting.notices (.spawned p.pid invocation.argv)⟩

/-- What a start makes of what has come of the launch. -/
def joined (setting : Setting) (invocation : Invocation) (b : Block) :
    Result Machine Process → Result Block Nat
  | ⟨.error f, m, l⟩ =>
    ⟨.error (f.claimedFor .launch invocation.program), { b with machine := m }, l⟩
  | ⟨.ok p, m, l⟩ =>
    -- A member before the observer is told: a failure of the observer does not undo it.
    ⟨(setting.answer? m.hookCalls (.spawned p.pid invocation.argv)).elim
        (.ok b.group.members.length) .error,
      ({ b with machine := setting.told m } : Block).addMember p,
      l ++ .log .process s!"spawned pid {p.pid}: {Text.quotedList invocation.argv}" ::
        setting.notices (.spawned p.pid invocation.argv)⟩

/-- A start hands on what has been written, and then launches the program. -/
theorem start_apply (setting : Setting) (invocation : Invocation) (host : Host) (b : Block) :
    start setting invocation host b =
      (joined setting invocation b (Process.launch invocation setting.environment host
        { b.machine with standardBuffer := "" })).after b.machine.flushed := by
  simp only [start, Action.inBlock, Action.bind_apply, Action.zoom_apply,
    Machine.flush_standard_apply, Action.mapFailure_apply, Result.andThen_ok, Action.get_apply,
    Action.modify_apply, Action.log_apply, Action.pure_apply, Setting.notify_apply]
  generalize Process.launch invocation setting.environment host
    { b.machine with standardBuffer := "" } = launched
  obtain ⟨f | p, m, l⟩ := launched
  · rfl
  · simp only [joined, Block.addMember, Action.mapError_ok, Result.andThen_ok]
    cases setting.answer? m.hookCalls (.spawned p.pid invocation.argv) <;> simp

theorem start_spec (setting : Setting) (invocation : Invocation) (host : Host) (b : Block) :
    Started setting invocation b (start setting invocation host b) := by
  have hflush : b.machine.Steady { b.machine with standardBuffer := "" } :=
    ⟨fun _ => List.suffix_rfl, rfl, rfl, rfl, rfl, rfl, rfl, rfl⟩
  rw [start_apply]
  obtain ⟨hnull, hlaunch⟩ | ⟨m, hm, ⟨f, hf, hlaunch⟩ | ⟨script, nextPid, hscript, hlaunch⟩⟩ :=
    Process.launch_spec invocation setting.environment host
      { b.machine with standardBuffer := "" }
  · rw [hlaunch, joined, Result.after_mk, List.append_nil]
    exact .refused hnull hflush
  · rw [hlaunch, joined, Result.after_mk]
    exact .failed hf (hflush.trans hm)
  · generalize hp : Process.ofScript script nextPid invocation.argv = p at hlaunch
    have hsteady := (hflush.trans hm).trans (setting.told_steady m)
    rw [hlaunch, joined, Result.after_mk]
    refine .running _ p _ hscript hp.symm hsteady ?_
    cases hanswer : setting.answer? m.hookCalls (.spawned p.pid invocation.argv) with
    | none => exact .inl rfl
    | some f => exact .inr ⟨f, rfl, Setting.answers_of_answer? hanswer⟩

/-! ## Waiting -/

/-- The member that has been waited for. -/
theorem member?_ended {b : Block} {i : Nat} {p : Process} (hp : b.member? i = some p) (m : Machine)
    (pid : Int) : ((({ b with machine := m } : Block).modifyMember i Process.ended).markReaped
      pid).member? i = some p.ended := by
  have hmodified := Block.member?_modifyMember { b with machine := m } i Process.ended
  have hsame : ({ b with machine := m } : Block).member? i = some p := hp
  rw [hsame] at hmodified
  exact hmodified

/-- Of the members only the one that is waited for ends. -/
theorem member?_waited {b : Block} {i j : Nat} {m : Machine} {pid : Int} {q' : Process}
    (h : ((({ b with machine := m } : Block).modifyMember i Process.ended).markReaped pid).member? j
      = some q') : ∃ q, b.member? j = some q ∧ q' = if i = j then q.ended else q := by
  change (b.modifyMember i Process.ended).member? j = some q' at h
  rw [Block.member?_modifyMember_ite] at h
  obtain ⟨q, hq, rfl⟩ := Option.map_eq_some_iff.mp h
  exact ⟨q, hq, rfl⟩

/-- A member that counts as waited for is left alone. -/
theorem reap_of_reaped (setting : Setting) (host : Host) {b : Block} {i : Nat} {p : Process}
    (hp : b.member? i = some p) (hreaped : p.pid ∈ b.group.reaped) :
    reap setting i host b = ⟨.ok p.collected, b, []⟩ := by
  simp only [reap, Action.bind_apply, Action.get_apply, Result.andThen_ok, hp, if_pos hreaped]
  rfl

/-- A member that has not been waited for is waited for until a wait is not interrupted.  What
    comes out is the answer of the observer, or else the interrupt, if there was one. -/
theorem reap_of_live (setting : Setting) (host : Host) {b : Block} {i : Nat} {p : Process}
    (hp : b.member? i = some p) (hlive : p.pid ∉ b.group.reaped) :
    reap setting i host b =
      ⟨((setting.answer? b.machine.hookCalls (.reaped p.pid p.args p.status)).or
          p.interruption?).elim (.ok (some p.status)) .error,
        (({ b with machine := setting.told b.machine } : Block).modifyMember i
          Process.ended).markReaped p.pid,
        Process.waits p.pid p.status p.interrupts ++
          .log .process s!"reaped pid {p.pid} (status {p.status})" ::
            setting.notices (.reaped p.pid p.args p.status)⟩ := by
  simp only [reap, Action.bind_apply, Action.get_apply, Result.andThen_ok, hp, if_neg hlive,
    Process.awaitEnd_apply, Action.modify_apply, Action.log_apply, Action.inBlock,
    Action.zoom_apply, Setting.notify_apply, Block.modifyMember, Block.markReaped]
  cases setting.answer? b.machine.hookCalls (.reaped p.pid p.args p.status) with
  | some f => simp
  | none => by_cases hinterrupts : 0 < p.interrupts <;> simp [Process.interruption?, hinterrupts]

/-- What waiting for the member at a position can come to. -/
inductive Reaped (setting : Setting) (i : Nat) (b : Block) : Result Block (Option Int) → Prop
  | absent (h : b.member? i = none) : Reaped setting i b ⟨.error outOfRange, b, []⟩
  /-- The member counts as waited for. -/
  | again {p : Process} (h : b.member? i = some p) (hp : p.pid ∈ b.group.reaped) :
      Reaped setting i b ⟨.ok p.collected, b, []⟩
  /-- The member is waited for, whatever the observer answers. -/
  | ended {p : Process} {m : Machine} (outcome : Except Failure (Option Int)) (message : String)
      (h : b.member? i = some p) (hp : p.pid ∉ b.group.reaped) (hm : b.machine.Steady m)
      (houtcome : ∀ f, outcome = .error f →
        f = .interrupt "" ∨ setting.Answers (.reaped p.pid p.args p.status) f)
      (hcollected : ∀ status?, outcome = .ok status? →
        status? = some p.status ∧ p.interrupts = 0) :
      Reaped setting i b
        ⟨outcome, (({ b with machine := m } : Block).modifyMember i Process.ended).markReaped p.pid,
          Process.waits p.pid p.status p.interrupts ++
            .log .process message :: setting.notices (.reaped p.pid p.args p.status)⟩

theorem reap_spec (setting : Setting) (i : Nat) (host : Host) (b : Block) :
    Reaped setting i b (reap setting i host b) := by
  cases h : b.member? i with
  | none =>
    simp only [reap, Action.bind_apply, Action.get_apply, Result.andThen_ok, h]
    exact .absent h
  | some p =>
    by_cases hp : p.pid ∈ b.group.reaped
    · rw [reap_of_reaped setting host h hp]
      exact .again h hp
    · rw [reap_of_live setting host h hp]
      refine .ended _ _ h hp (setting.told_steady b.machine) ?_ ?_
      · intro f hf
        rcases hanswer : setting.answer? b.machine.hookCalls (.reaped p.pid p.args p.status) with
          _ | f'
        -- Where the observer is content, only an interrupt of the waits can come out.
        · rw [hanswer, Option.none_or] at hf
          unfold Process.interruption? at hf
          split at hf <;> cases hf
          exact .inl rfl
        · rw [hanswer] at hf
          cases hf
          exact .inr (Setting.answers_of_answer? hanswer)
      · intro status? hstatus
        rcases hanswer : setting.answer? b.machine.hookCalls (.reaped p.pid p.args p.status) with
          _ | f'
        · rw [hanswer, Option.none_or] at hstatus
          unfold Process.interruption? at hstatus
          split at hstatus
          · cases hstatus
          · next hnone =>
            cases hstatus
            exact ⟨rfl, by omega⟩
        · rw [hanswer] at hstatus
          cases hstatus

/-! ## Releasing -/

/-- Waits for a member that is being released; an interrupt is kept for later. -/
def settle (setting : Setting) (i : Nat) : Action Block (Option Failure) := do
  match ← (reap setting i).attempt with
  | .ok _ => pure none
  | .error (.interrupt message) => pure (some (.interrupt message))
  | .error f => .fail f

/-- What releasing the member at a position can come to. -/
inductive Released (setting : Setting) (stopping : Bool) (i : Nat) (host : Host) (b : Block) :
    Result Block (Option Failure) → Prop
  | absent (h : b.member? i = none) : Released setting stopping i host b ⟨.ok none, b, []⟩
  | again {p : Process} (h : b.member? i = some p) (hp : p.pid ∈ b.group.reaped) :
      Released setting stopping i host b ⟨.ok none, b, []⟩
  | waited {p : Process} (h : b.member? i = some p) (hp : p.pid ∉ b.group.reaped) :
      Released setting stopping i host b (settle setting i host b)
  | stopped {p : Process} (message : String) (h : b.member? i = some p)
      (hp : p.pid ∉ b.group.reaped) (hrunning : stopping = true ∧ p.running = true) :
      Released setting stopping i host b
        ((settle setting i host (b.modifyMember i Process.terminated)).after
          [.log .process message, .terminate p.pid])

/-- A member that has not been waited for is terminated first, if it runs and the block is being
    stopped. -/
theorem release_of_live (setting : Setting) (stopping : Bool) (host : Host) {b : Block} {i : Nat}
    {p : Process} (hp : b.member? i = some p) (hlive : p.pid ∉ b.group.reaped) :
    release setting stopping i host b =
      if stopping && p.running then
        (settle setting i host (b.modifyMember i Process.terminated)).after
          [.log .process s!"terminating pid {p.pid}", .terminate p.pid]
      else settle setting i host b := by
  simp only [release, Action.bind_apply, Action.get_apply, Result.andThen_ok, hp, if_neg hlive]
  by_cases hstop : (stopping && p.running) = true
  · simp only [if_pos hstop, Action.bind_apply, Action.log_apply, Result.andThen_ok,
      Group.terminate, Action.get_apply, hp, Action.emit_apply, Action.modify_apply]
    rfl
  · simp only [if_neg hstop]
    rfl

theorem release_spec (setting : Setting) (stopping : Bool) (i : Nat) (host : Host) (b : Block) :
    Released setting stopping i host b (release setting stopping i host b) := by
  cases h : b.member? i with
  | none =>
    simp only [release, Action.bind_apply, Action.get_apply, Result.andThen_ok, h]
    exact .absent h
  | some p =>
    by_cases hp : p.pid ∈ b.group.reaped
    · simp only [release, Action.bind_apply, Action.get_apply, Result.andThen_ok, h, if_pos hp]
      exact .again h hp
    · rw [release_of_live setting stopping host h hp]
      split
      · next hstop =>
        exact .stopped s!"terminating pid {p.pid}" h hp (Bool.and_eq_true_iff.mp hstop)
      · exact .waited h hp

end Group

end LineShell
