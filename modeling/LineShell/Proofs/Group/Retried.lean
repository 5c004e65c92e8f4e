/-
  LineShell.Proofs.Group.Retried

  Waits that are repeated until one of them is not interrupted.

  A process has a number of interrupts in store.  The system answers a wait for it
  with one of them while there are any, and then with its status, so that each
  interrupted wait leaves the loop of waits with fewer to come.  Wherever the loop
  is looked at, it goes on to the same end, and the waits so far are the first of
  the same waits (`WaitLoop.Runs.goes_on`).

  The member is marked behind the last wait, and only then the observer is told;
  an interrupt comes out last.  So the member is marked whatever the observer
  answers: neither in the block nor when it is left is the member waited for or
  reported again, and asking for it gives the status on record (`reap_completes`).
-/

import LineShell.Proofs.Group.Settled

namespace LineShell

/-! ## The loop of waits -/

/-- How the system answers a wait for the process, and the process after it: with an interrupt
    while there are some in store, and then with the status. -/
def Process.answerWait (p : Process) : Option Int × Process :=
  match p.interrupts with
  | interrupts + 1 => (none, { p with interrupts })
  | 0 => (some p.status, p.ended)

/-- A loop of waits for a process, as it stands between two of them. -/
structure WaitLoop where
  process : Process
  /-- Whether a wait has been interrupted. -/
  interrupted : Bool := false
  /-- The status that the last wait has come to. -/
  status? : Option Int := none

namespace WaitLoop

/-- The next wait, and how the loop stands after it; behind a wait that has come to a status there
    is none. -/
def next? (w : WaitLoop) : Option (Event × WaitLoop) :=
  match w.status?, w.process.answerWait with
  | some _, _ => none
  | none, (none, p) =>
    some (.wait w.process.pid none, { process := p, interrupted := true })
  | none, (some status, p) =>
    some (.wait w.process.pid (some status), { w with process := p, status? := some status })

/-- The waits of a list, one after the other, take the loop from one standing to another. -/
inductive Runs : WaitLoop → List Event → WaitLoop → Prop
  | nil (w : WaitLoop) : Runs w [] w
  | cons {w w' w'' : WaitLoop} {e : Event} {l : List Event} (hnext : w.next? = some (e, w'))
      (h : Runs w' l w'') : Runs w (e :: l) w''

/-- The waits that are still to come. -/
def toCome (w : WaitLoop) : List Event :=
  if w.status?.isSome then []
  else Process.waits w.process.pid w.process.status w.process.interrupts

/-- How the loop stands in the end. -/
def atEnd (w : WaitLoop) : WaitLoop :=
  if w.status?.isSome then w
  else
    { process := w.process.ended
      interrupted := w.interrupted || decide (0 < w.process.interrupts)
      status? := some w.process.status }

/-- How a new loop stands in the end. -/
def ended (p : Process) : WaitLoop where
  process := p.ended
  interrupted := decide (0 < p.interrupts)
  status? := some p.status

variable {w w' : WaitLoop} {e : Event} {l : List Event} {p : Process}

/-- Where there is no next wait, none is to come, and the loop stands as it does in the end. -/
theorem toCome_eq_nil_of_next? (h : w.next? = none) : w.toCome = [] ∧ w.atEnd = w := by
  obtain ⟨p, interrupted, _ | status⟩ := w
  · cases hinterrupts : p.interrupts <;> simp [next?, Process.answerWait, hinterrupts] at h
  · exact ⟨rfl, rfl⟩

/-- A wait is the first of those to come, and does not change what the loop comes to. -/
theorem toCome_of_next? (h : w.next? = some (e, w')) :
    w.toCome = e :: w'.toCome ∧ w.atEnd = w'.atEnd := by
  obtain ⟨p, interrupted, _ | status⟩ := w
  · cases hinterrupts : p.interrupts with
    | zero =>
      simp only [next?, Process.answerWait, hinterrupts, Option.some.injEq, Prod.mk.injEq] at h
      obtain ⟨rfl, rfl⟩ := h
      simp [toCome, atEnd, Process.waits, hinterrupts]
    | succ n =>
      simp only [next?, Process.answerWait, hinterrupts, Option.some.injEq, Prod.mk.injEq] at h
      obtain ⟨rfl, rfl⟩ := h
      simp [toCome, atEnd, Process.waits, Process.ended, hinterrupts, List.replicate_succ]
  · cases h

theorem Runs.toCome_eq (h : Runs w l w') : w.toCome = l ++ w'.toCome ∧ w.atEnd = w'.atEnd := by
  induction h with
  | nil => exact ⟨rfl, rfl⟩
  | cons hnext _ ih =>
    obtain ⟨htoCome, hatEnd⟩ := toCome_of_next? hnext
    exact ⟨by rw [htoCome, ih.1, List.cons_append], hatEnd.trans ih.2⟩

/-- The loop comes to its end, and the waits to come are those that take it there. -/
theorem runs_toCome (w : WaitLoop) : Runs w w.toCome w.atEnd := by
  -- The waits to come get fewer with each wait.
  induction hl : w.toCome generalizing w with
  | nil =>
    cases hnext : w.next? with
    | none =>
      rw [(toCome_eq_nil_of_next? hnext).2]
      exact .nil w
    | some step =>
      rw [(toCome_of_next? hnext).1] at hl
      cases hl
  | cons e l ih =>
    cases hnext : w.next? with
    | none =>
      rw [(toCome_eq_nil_of_next? hnext).1] at hl
      cases hl
    | some step =>
      obtain ⟨htoCome, hatEnd⟩ := toCome_of_next? hnext
      rw [htoCome] at hl
      injection hl with hfirst hrest
      rw [hatEnd]
      exact .cons (hfirst ▸ hnext) (ih step.2 hrest)

/-- Wherever a new loop stands, it goes on to the same end, by way of the same waits. -/
theorem Runs.goes_on (h : Runs { process := p } l w) :
    ∃ rest, Runs w rest (ended p) ∧ l ++ rest = Process.waits p.pid p.status p.interrupts := by
  obtain ⟨htoCome, hatEnd⟩ := h.toCome_eq
  have hended : w.atEnd = ended p := by
    rw [← hatEnd]
    simp [atEnd, ended]
  exact ⟨w.toCome, hended ▸ runs_toCome w, htoCome.symm⟩

end WaitLoop

/-! ## Members on record -/

/-- Whether the event is a wait for the process of a number, or tells of its end. -/
def Event.isEndOf (pid : Int) : Event → Bool
  | .wait other _ => other == pid
  | .hook (.reaped other ..) => other == pid
  | _ => false

/-- The member at a position counts as waited for, and a status of it is on record, or none. -/
structure Block.OnRecord (i : Nat) (pid : Int) (status? : Option Int) (b : Block) : Prop where
  reaped : pid ∈ b.group.reaped
  member : ∃ p, b.member? i = some p ∧ p.pid = pid ∧ p.collected = status?

namespace Group

variable {setting : Setting} {b b' : Block} {i : Nat} {pid : Int} {status? : Option Int}
  {l : List Event}

/-- A member that is on record stays so, and is neither waited for nor reported. -/
def Rests (i : Nat) (pid : Int) (status? : Option Int) (b : Block) (l : List Event)
    (b' : Block) : Prop :=
  b.OnRecord i pid status? → b'.OnRecord i pid status? ∧ ∀ e ∈ l, e.isEndOf pid = false

namespace Rests

theorem isPath : IsPath (Rests i pid status?) where
  nil _ h := ⟨h, nofun⟩
  append h₁ h₂ h := by
    obtain ⟨hmiddle, hfirst⟩ := h₁ h
    obtain ⟨hend, hsecond⟩ := h₂ hmiddle
    exact ⟨hend, List.forall_mem_append.mpr ⟨hfirst, hsecond⟩⟩

/-- Events that end nobody, in a group that is the same. -/
theorem of_group (hgroup : b'.group = b.group) (hl : ∀ e ∈ l, e.isEndOf pid = false) :
    Rests i pid status? b l b' := by
  rintro ⟨hreaped, p, hp, hpid, hstatus⟩
  exact ⟨⟨hgroup ▸ hreaped, p, by rw [Block.member?, hgroup]; exact hp, hpid, hstatus⟩, hl⟩

/-- A termination changes how a member would end, and not what is on record of it. -/
theorem terminated (b : Block) (j : Nat) (other : Int) :
    Rests i pid status? b [.terminate other] (b.modifyMember j Process.terminated) := by
  rintro ⟨hreaped, p, hp, hpid, hstatus⟩
  refine ⟨⟨hreaped, if j = i then p.terminated else p, ?_, ?_, ?_⟩,
    List.forall_mem_singleton.mpr rfl⟩
  · rw [Block.member?_modifyMember_ite, hp]
    rfl
  · split <;> exact hpid
  · split <;> exact hstatus

/-- The end of another process. -/
theorem ended {j : Nat} {q : Process} {m : Machine} {message : String} (hq : b.member? j = some q)
    (hlive : q.pid ∉ b.group.reaped) :
    Rests i pid status? b
      (Process.waits q.pid q.status q.interrupts ++
        .log .process message :: setting.notices (.reaped q.pid q.args q.status))
      ((({ b with machine := m } : Block).modifyMember j Process.ended).markReaped q.pid) := by
  rintro ⟨hreaped, p, hp, hpid, hstatus⟩
  -- Whoever is waited for is not marked yet, so it is not the one on record.
  have hother : (q.pid == pid) = false := beq_false_of_ne fun h => hlive (h ▸ hreaped)
  have hne : j ≠ i := by
    rintro rfl
    obtain rfl : q = p := Option.some.inj (hq.symm.trans hp)
    exact hlive (hpid ▸ hreaped)
  refine ⟨⟨List.mem_append_left _ hreaped, p, ?_, hpid, hstatus⟩, fun e he => ?_⟩
  · exact (b.member?_modifyMember_of_ne hne Process.ended).trans hp
  · rcases List.mem_append.mp he with hwait | hrest
    · obtain ⟨status?, rfl⟩ := Process.mem_waits hwait
      exact hother
    · rcases List.mem_cons.mp hrest with rfl | hnotice
      · rfl
      · rw [Setting.mem_notices hnotice]
        exact hother

/-- A new member comes behind those there are. -/
theorem addMember {p : Process} {m : Machine} (hl : ∀ e ∈ l, e.isEndOf pid = false) :
    Rests i pid status? b l (({ b with machine := m } : Block).addMember p) := by
  rintro ⟨hreaped, q, hq, hpid, hstatus⟩
  refine ⟨⟨hreaped, q, ?_, hpid, hstatus⟩, hl⟩
  obtain ⟨hlength, -⟩ := List.getElem?_eq_some_iff.mp hq
  show (b.group.members ++ [p])[i]? = some q
  rw [List.getElem?_append_left hlength]
  exact hq

end Rests

theorem tends_rests : Tends setting (Rests i pid status?) where
  toIsPath := Rests.isPath
  log _ _ _ := .of_group rfl (List.forall_mem_singleton.mpr rfl)
  reap j host b := by
    have hspec := reap_spec setting j host b
    generalize reap setting j host b = r at hspec
    cases hspec with
    | absent => exact Rests.isPath.nil b
    | again => exact Rests.isPath.nil b
    | ended outcome message hq hlive => exact .ended hq hlive
  terminate {b j p} _ _ := .terminated b j p.pid

theorem starts_rests : Starts setting (Rests i pid status?) where
  toIsPath := Rests.isPath
  start invocation host b := by
    have hspec := start_spec setting invocation host b
    generalize start setting invocation host b = r at hspec
    have hflushed : ∀ e ∈ b.machine.flushed, e.isEndOf pid = false := by
      intro e he
      obtain ⟨text, rfl⟩ := Machine.mem_flushed he
      rfl
    cases hspec with
    | refused => exact .of_group rfl hflushed
    | failed =>
      exact .of_group rfl (List.forall_mem_append.mpr
        ⟨hflushed, List.forall_mem_singleton.mpr rfl⟩)
    | running =>
      refine .addMember (List.forall_mem_append.mpr ⟨hflushed, ?_⟩)
      refine List.forall_mem_cons.mpr ⟨rfl, List.forall_mem_cons.mpr ⟨rfl, fun e he => ?_⟩⟩
      rw [Setting.mem_notices he]
      rfl
  pipe host b := by
    simp only [Action.inBlock, Action.zoom_apply, Machine.pipe_apply]
    split <;> exact .of_group rfl (List.forall_mem_singleton.mpr rfl)
  close _ _ := .of_group rfl (List.forall_mem_singleton.mpr rfl)

theorem runSteps_rests (host : Host) (steps : List Step) (b : Block) :
    let block := runSteps setting host steps b
    Rests i pid status? b (block.1.flatMap Result.events ++ block.2.events) block.2.state := by
  refine runSteps_keeps Rests.isPath (fun step => ?_) host steps b
  exact .bind Rests.isPath (step.operation.action_keeps starts_rests tends_rests
    Rests.terminated) fun _ => .pure Rests.isPath _

/-- Asking for a member on record gives what is on record. -/
theorem reap_of_onRecord (setting : Setting) (host : Host) (h : b.OnRecord i pid status?) :
    reap setting i host b = ⟨.ok status?, b, []⟩ := by
  obtain ⟨hreaped, p, hp, rfl, rfl⟩ := h
  exact reap_of_reaped setting host hp hreaped

/-! ## Reaping -/

/-- What comes of reaping a member that has not been waited for, `r` being the result. -/
structure Completes (setting : Setting) (host : Host) (i : Nat) (b : Block) (p : Process)
    (r : Result Block (Option Int)) : Prop where
  /-- Wherever the loop of waits stands, it goes on to the same end, and stops there. -/
  loop : ∀ l w, WaitLoop.Runs { process := p } l w →
    ∃ rest, WaitLoop.Runs w rest (.ended p) ∧
      l ++ rest = Process.waits p.pid p.status p.interrupts
  stops : (WaitLoop.ended p).next? = none
  /-- The observer is told once, after the last wait. -/
  events : r.events = Process.waits p.pid p.status p.interrupts ++
    .log .process s!"reaped pid {p.pid} (status {p.status})" ::
      setting.notices (.reaped p.pid p.args p.status)
  /-- The member is what the loop has made of it. -/
  member : r.state.member? i = some (WaitLoop.ended p).process
  others : ∀ j ≠ i, r.state.member? j = b.member? j
  /-- The member is marked, whatever the observer answers. -/
  reaped : r.state.group.reaped = b.group.reaped ++ [p.pid]
  machine : r.state.machine = setting.told b.machine
  /-- The observer has returned: the interrupt comes out, or else the status. -/
  returned : setting.answer? b.machine.hookCalls (.reaped p.pid p.args p.status) = none →
    r.outcome = if 0 < p.interrupts then .error (.interrupt "") else .ok (some p.status)
  raised : ∀ f, setting.answer? b.machine.hookCalls (.reaped p.pid p.args p.status) = some f →
    r.outcome = .error f
  /-- Whatever is done in the block afterwards and when it is left, nobody waits for the member or
      reports it, and asking for it gives its status. -/
  rests : ∀ steps : List Step,
    let block := runSteps setting host steps r.state
    let left := leaving setting host block.2
    (∀ e ∈ block.1.flatMap Result.events ++ block.2.events ++ left.events,
      e.isEndOf p.pid = false) ∧
    reap setting i host block.2.state = ⟨.ok (some p.status), block.2.state, []⟩ ∧
    reap setting i host left.state = ⟨.ok (some p.status), left.state, []⟩

/-- A member that counts as waited for is left alone, and what is on record of it is given.  Any
    other is waited for until a wait is not interrupted, however many are, and is marked for good
    before the observer is told. -/
theorem reap_completes (setting : Setting) (host : Host) {b : Block} {i : Nat} {p : Process}
    (hp : b.member? i = some p) :
    (p.pid ∈ b.group.reaped → reap setting i host b = ⟨.ok p.collected, b, []⟩) ∧
      (p.pid ∉ b.group.reaped → Completes setting host i b p (reap setting i host b)) := by
  refine ⟨reap_of_reaped setting host hp, fun hlive => ?_⟩
  rw [reap_of_live setting host hp hlive]
  have hmember := member?_ended hp (setting.told b.machine) p.pid
  have hrecord : ((({ b with machine := setting.told b.machine } : Block).modifyMember i
      Process.ended).markReaped p.pid).OnRecord i p.pid (some p.status) :=
    ⟨List.mem_append_right _ (List.mem_singleton_self _), p.ended, hmember, rfl, rfl⟩
  refine
    { loop := fun l w h => h.goes_on
      stops := rfl
      events := rfl
      member := hmember
      others := fun j hj => b.member?_modifyMember_of_ne hj.symm Process.ended
      reaped := rfl
      machine := rfl
      returned := fun hanswer => ?_
      raised := fun f hanswer => ?_
      rests := fun steps => ?_ }
  · simp only [hanswer, Option.none_or, Process.interruption?]
    split <;> rfl
  · simp only [hanswer, Option.some_or]
    rfl
  · -- The member is on record from here on, through the steps and the leaving behind them.
    obtain ⟨hblock, hsteps⟩ := runSteps_rests host steps _ hrecord
    obtain ⟨hleft, hleaving⟩ := tends_rests.leave _ host _ hblock
    exact ⟨List.forall_mem_append.mpr ⟨hsteps, hleaving⟩, reap_of_onRecord setting host hblock,
      reap_of_onRecord setting host hleft⟩

/-- The first process is interrupted twice, under an observer that returns and under one that fails
    when it is told of the end; the second has been waited for before. -/
theorem reap_completes_interrupted :
    let p : Process := .ofScript { interrupts := 2, running := true, status := 3 } 7 ["p", "x"]
    let q : Process := (Process.ofScript {} 8 ["q"]).ended
    let returning : Setting := { hook := some fun _ _ => none }
    let failing : Setting := { hook := some fun _ _ => some (.fault .runtime "x") }
    let b : Block := { group := { members := [p, q], reaped := [8] }, machine := {} }
    b.member? 0 = some p ∧ 7 ∉ b.group.reaped ∧
      Completes returning {} 0 b p (reap returning 0 {} b) ∧
      (reap returning 0 {} b).outcome = .error (.interrupt "") ∧
      Completes failing {} 0 b p (reap failing 0 {} b) ∧
      (reap failing 0 {} b).outcome = .error (.fault .runtime "x") ∧
      b.member? 1 = some q ∧ 8 ∈ b.group.reaped ∧
      reap returning 1 {} b = ⟨.ok (some 0), b, []⟩ := by
  intro p q returning failing b
  have hlive : 7 ∉ b.group.reaped := by decide
  have hmarked : 8 ∈ b.group.reaped := by decide
  have hreturning := (reap_completes returning {} (b := b) (i := 0) (p := p) rfl).2 hlive
  have hfailing := (reap_completes failing {} (b := b) (i := 0) (p := p) rfl).2 hlive
  have hagain := (reap_completes returning {} (b := b) (i := 1) (p := q) rfl).1 hmarked
  exact ⟨rfl, hlive, hreturning, hreturning.returned rfl, hfailing, hfailing.raised _ rfl, rfl,
    hmarked, hagain⟩

end Group

end LineShell
