/-
  LineShell.Proofs.Group.Turns

  What leaving a group does, member by member.

  The members that have not been waited for take their turns in the order of their
  start.  Where the block has failed it is being stopped from the first turn on,
  and otherwise from behind the first turn that is interrupted.  In its turn a
  member is terminated, if the block is being stopped and the member still runs,
  and then waited for until a wait is not interrupted.  Under an observer that does
  not break when it is told of an end, leaving is these turns and nothing else
  (`leave_eq_turns`, `runBlock_parted`).
-/

import LineShell.Proofs.Group.Settled
import LineShell.Proofs.Group.Silent

namespace LineShell

/-- The members that have not been waited for, in the order of their start. -/
def Block.awaited (b : Block) : List Process :=
  b.group.members.filter fun p => p.pid ∉ b.group.reaped

namespace Group

variable {setting : Setting} {host : Host} {b : Block} {α : Type}

/-! ## Turns -/

/-- The turn of a member while its group is left. -/
structure Turn where
  /-- The member as the block has left it. -/
  member : Process
  /-- Whether the block is being stopped. -/
  stopping : Bool
  /-- What the observer answers when it is told of the end of the member. -/
  answer : Option Failure

namespace Turn

/-- Whether the member is terminated. -/
def terminates (t : Turn) : Bool := t.stopping && t.member.running

/-- The member as it is waited for. -/
def waited (t : Turn) : Process := if t.terminates then t.member.terminated else t.member

/-- What the observer is told. -/
def notice (t : Turn) : ProcessEvent := .reaped t.member.pid t.member.args t.waited.status

/-- The interrupt that the turn meets: the answer of the observer, or else that of a wait. -/
def failure? (t : Turn) : Option Failure := t.answer.or t.member.interruption?

/-- The events of the turn. -/
def events (setting : Setting) (t : Turn) : List Event :=
  (if t.terminates then
    [.log .process s!"terminating pid {t.member.pid}", .terminate t.member.pid]
  else []) ++
    (Process.waits t.member.pid t.waited.status t.member.interrupts ++
      .log .process s!"reaped pid {t.member.pid} (status {t.waited.status})" ::
        setting.notices t.notice)

/-- The turn of a member, given how often the observer has been called before it. -/
def ofMember (setting : Setting) (calls : Nat) (stopping : Bool) (p : Process) : Turn :=
  -- What the observer is told does not depend on what it answers.
  { member := p, stopping
    answer := setting.answer? calls (notice { member := p, stopping, answer := none }) }

end Turn

/-- The turns of members, given how often the observer has been called before them. -/
def turnsOf (setting : Setting) : (calls : Nat) → (stopping : Bool) → List Process → List Turn
  | _, _, [] => []
  | calls, stopping, p :: rest =>
    let turn := Turn.ofMember setting calls stopping p
    turn :: turnsOf setting (calls + 1) (stopping || turn.failure?.isSome) rest

/-! ## One turn -/

theorem modify_append_cons (done rest : List Process) (p : Process) (f : Process → Process) :
    (done ++ p :: rest).modify done.length f = (done ++ [f p]) ++ rest := by
  rw [List.modify_eq_take_cons_drop (by simp)]
  simp

/-- Waiting for a member that is being released: an observer that does not break can only
    interrupt it. -/
theorem settle_of_live (hquiet : setting.QuietOnEnds) (host : Host) {i : Nat} {p : Process}
    (hp : b.member? i = some p) (hlive : p.pid ∉ b.group.reaped) :
    settle setting i host b =
      ⟨.ok ((setting.answer? b.machine.hookCalls (.reaped p.pid p.args p.status)).or
          p.interruption?),
        (({ b with machine := setting.told b.machine } : Block).modifyMember i
          Process.ended).markReaped p.pid,
        Process.waits p.pid p.status p.interrupts ++
          .log .process s!"reaped pid {p.pid} (status {p.status})" ::
            setting.notices (.reaped p.pid p.args p.status)⟩ := by
  simp only [settle, Action.bind_apply, Action.attempt_apply, reap_of_live setting host hp hlive,
    Result.andThen_ok]
  cases hanswer : setting.answer? b.machine.hookCalls (.reaped p.pid p.args p.status) with
  | some f =>
    obtain ⟨message, rfl⟩ := hquiet _ _ _ f (Setting.answers_of_answer? hanswer)
    simp
  | none =>
    unfold Process.interruption?
    split <;> simp

/-- The member behind the first ones has taken its turn. -/
structure TakesTurn (setting : Setting) (done rest : List Process) (turn : Turn) (b : Block)
    (r : Result Block (Option Failure)) : Prop where
  outcome : r.outcome = .ok turn.failure?
  events : r.events = turn.events setting
  members : r.state.group.members = (done ++ [turn.waited.ended]) ++ rest
  reaped : r.state.group.reaped = b.group.reaped ++ [turn.member.pid]
  machine : r.state.machine = setting.told b.machine

/-- Releasing a member that has not been waited for is its turn. -/
theorem release_takesTurn (hquiet : setting.QuietOnEnds) (host : Host) {done rest : List Process}
    {p : Process} (hmembers : b.group.members = done ++ p :: rest)
    (hlive : p.pid ∉ b.group.reaped) (stopping : Bool) :
    TakesTurn setting done rest (Turn.ofMember setting b.machine.hookCalls stopping p) b
      (release setting stopping done.length host b) := by
  have hp : b.member? done.length = some p := by
    rw [Block.member?, hmembers, List.getElem?_append_right (Nat.le_refl _), Nat.sub_self]
    rfl
  rw [release_of_live setting stopping host hp hlive]
  by_cases hstop : (stopping && p.running) = true
  · -- The member is waited for as it is after its termination.
    have hterminated : (b.modifyMember done.length Process.terminated).member? done.length
        = some p.terminated := by
      rw [Block.member?_modifyMember, hp]
      rfl
    rw [if_pos hstop, settle_of_live hquiet host hterminated hlive]
    refine ⟨?_, ?_, ?_, rfl, rfl⟩
    · simp only [Turn.failure?, Turn.ofMember, Turn.notice, Turn.waited, Turn.terminates, hstop,
        if_true]
      rfl
    · simp only [Turn.events, Turn.ofMember, Turn.notice, Turn.waited, Turn.terminates, hstop,
        if_true]
      rfl
    · show (b.group.members.modify done.length Process.terminated).modify done.length
        Process.ended = _
      rw [hmembers, modify_append_cons, List.append_assoc, List.singleton_append,
        modify_append_cons]
      simp only [Turn.ofMember, Turn.waited, Turn.terminates, hstop, if_true]
  · rw [if_neg hstop, settle_of_live hquiet host hp hlive]
    rw [Bool.not_eq_true] at hstop
    refine ⟨?_, ?_, ?_, rfl, rfl⟩
    · simp only [Turn.failure?, Turn.ofMember, Turn.notice, Turn.waited, Turn.terminates, hstop,
        Bool.false_eq_true, if_false]
    · simp only [Turn.events, Turn.ofMember, Turn.notice, Turn.waited, Turn.terminates, hstop,
        Bool.false_eq_true, if_false, List.nil_append]
    · show b.group.members.modify done.length Process.ended = _
      rw [hmembers, modify_append_cons]
      simp only [Turn.ofMember, Turn.waited, Turn.terminates, hstop, Bool.false_eq_true, if_false]

/-! ## All turns -/

theorem Turn.ofMember_congr {calls calls' : Nat}
    (h : setting.hook.isSome = true → calls = calls') (stopping : Bool) (p : Process) :
    ofMember setting calls stopping p = ofMember setting calls' stopping p := by
  cases hhook : setting.hook with
  | none => simp only [ofMember, Setting.answer?, hhook, Option.bind_none]
  | some hook => rw [h (by rw [hhook]; rfl)]

/-- What comes of releasing members one after another, `interrupt` being the interrupt met before
    them. -/
def lastInterrupt (interrupt : Option Failure) (turns : List Turn) : Option Failure :=
  (turns.filterMap Turn.failure?).getLast?.or interrupt

theorem lastInterrupt_cons (interrupt : Option Failure) (turn : Turn) (turns : List Turn) :
    lastInterrupt interrupt (turn :: turns) = lastInterrupt (turn.failure?.or interrupt) turns := by
  unfold lastInterrupt
  cases hfailure : turn.failure? with
  | none => rw [List.filterMap_cons_none hfailure, Option.none_or]
  | some f =>
    rw [List.filterMap_cons_some hfailure, List.getLast?_cons]
    cases (turns.filterMap Turn.failure?).getLast? <;> rfl

/-- Releasing the members behind the first ones is the turns of those that have not been waited
    for. -/
theorem releaseAll_eq_turns (hquiet : setting.QuietOnEnds) (host : Host) (done ps : List Process)
    (hmembers : b.group.members = done ++ ps) (hdistinct : (ps.map Process.pid).Nodup)
    {calls : Nat} (hcalls : setting.hook.isSome = true → b.machine.hookCalls = calls)
    (stopping : Bool) (interrupt : Option Failure) :
    let turns := turnsOf setting calls stopping (ps.filter fun p => p.pid ∉ b.group.reaped)
    ∃ b', releaseAll setting stopping interrupt (List.range' done.length ps.length) host b =
      ⟨.ok (lastInterrupt interrupt turns), b', turns.flatMap (Turn.events setting)⟩ := by
  induction ps generalizing done b calls stopping interrupt with
  | nil => exact ⟨b, rfl⟩
  | cons p rest ih =>
    obtain ⟨hfresh, hdistinct⟩ := List.nodup_cons.mp hdistinct
    rw [List.length_cons, List.range'_succ, releaseAll, Action.bind_apply]
    by_cases hlive : p.pid ∈ b.group.reaped
    · -- The member has been waited for, and nothing happens.
      have hmember : ∀ q, b.member? done.length = some q → q.pid ∈ b.group.reaped := by
        intro q hq
        rw [Block.member?, hmembers, List.getElem?_append_right (Nat.le_refl _), Nat.sub_self] at hq
        cases hq
        exact hlive
      have hlater := ih (done ++ [p]) (by rw [hmembers, List.append_assoc]; rfl) hdistinct hcalls
        stopping interrupt
      rw [List.length_append, List.length_singleton] at hlater
      rw [release_of_reaped hmember, Result.andThen_ok, Result.after_nil,
        List.filter_cons_of_neg (by simpa using hlive)]
      exact hlater
    · have hturn := release_takesTurn hquiet host hmembers hlive stopping
      rw [Turn.ofMember_congr hcalls] at hturn
      generalize release setting stopping done.length host b = r at hturn
      obtain ⟨outcome, b', l⟩ := r
      obtain rfl : outcome = .ok _ := hturn.outcome
      obtain rfl : l = _ := hturn.events
      have hreaped : b'.group.reaped = b.group.reaped ++ [p.pid] := hturn.reaped
      -- Of the members to come none has the number of the one that has been waited for.
      have hsame : (rest.filter fun q => q.pid ∉ b'.group.reaped)
          = rest.filter fun q => q.pid ∉ b.group.reaped := by
        refine List.filter_congr fun q hq => ?_
        have hne : q.pid ≠ p.pid := fun h => hfresh (h ▸ List.mem_map_of_mem hq)
        simp [hreaped, hne]
      have hcalls' : setting.hook.isSome = true → b'.machine.hookCalls = calls + 1 := by
        intro hhook
        rw [show b'.machine = _ from hturn.machine, Setting.told, if_pos hhook, hcalls hhook]
      have hlater := fun stopping interrupt =>
        ih _ hturn.members hdistinct hcalls' stopping interrupt
      simp only [List.length_append, List.length_singleton, hsame] at hlater
      rw [List.filter_cons_of_pos (by simpa using hlive)]
      simp only [turnsOf, Result.andThen_ok, lastInterrupt_cons, List.flatMap_cons]
      cases hfailure : (Turn.ofMember setting calls stopping p).failure? with
      | none =>
        obtain ⟨b'', hrest⟩ := hlater stopping interrupt
        refine ⟨b'', ?_⟩
        simp only [hrest, Result.after_mk, Option.none_or, Option.isSome_none, Bool.or_false]
      | some f =>
        obtain ⟨b'', hrest⟩ := hlater true (some f)
        refine ⟨b'', ?_⟩
        simp only [hrest, Result.after_mk, Option.some_or, Option.isSome_some, Bool.or_true]

/-- What comes out of a block: its failure, or else the last interrupt met while leaving. -/
def comesOut (outcome : Except Failure α) (turns : List Turn) : Except Failure α :=
  match outcome with
  | .error f => .error f
  | .ok a => (lastInterrupt none turns).elim (.ok a) .error

/-- Leaving a block is the turns of the members that have not been waited for. -/
theorem leave_eq_turns (hquiet : setting.QuietOnEnds) (hdistinct : b.pids.Nodup)
    (outcome : Except Failure α) (host : Host) :
    let turns := turnsOf setting b.machine.hookCalls (!outcome.isOk) b.awaited
    ∃ b', leave setting outcome host b =
      ⟨comesOut outcome turns, b', turns.flatMap (Turn.events setting)⟩ := by
  have hrelease : ∀ stopping, ∃ b', releaseAll setting stopping none
      (List.range b.group.members.length) host b =
        ⟨.ok (lastInterrupt none (turnsOf setting b.machine.hookCalls stopping b.awaited)), b',
          (turnsOf setting b.machine.hookCalls stopping b.awaited).flatMap
            (Turn.events setting)⟩ := by
    rw [List.range_eq_range']
    exact fun stopping => releaseAll_eq_turns hquiet host [] b.group.members rfl hdistinct
      (fun _ => rfl) stopping none
  obtain ⟨b', h⟩ := hrelease (!outcome.isOk)
  refine ⟨b', ?_⟩
  simp only [leave, Action.bind_apply, Action.get_apply, Result.andThen_ok, Result.after_nil]
  generalize turnsOf setting b.machine.hookCalls (!outcome.isOk) b.awaited = turns at h
  cases outcome with
  | error f =>
    have h : releaseAll setting true none (List.range b.group.members.length) host b = _ := h
    simp only [Action.bind_apply, h, Result.andThen_ok, Action.fail_apply, Result.after_mk,
      List.append_nil, comesOut]
  | ok a =>
    have h : releaseAll setting false none (List.range b.group.members.length) host b = _ := h
    simp only [Action.bind_apply, h, Result.andThen_ok, comesOut]
    cases lastInterrupt none turns <;> simp

/-! ## Whose turn it is, and how it goes -/

theorem map_member_turnsOf (calls : Nat) (stopping : Bool) (ps : List Process) :
    (turnsOf setting calls stopping ps).map Turn.member = ps := by
  induction ps generalizing calls stopping with
  | nil => rfl
  | cons p rest ih => rw [turnsOf, List.map_cons, ih, Turn.ofMember]

theorem answer_of_getElem?_turnsOf {calls : Nat} {stopping : Bool} {ps : List Process} {i : Nat}
    {t : Turn} (h : (turnsOf setting calls stopping ps)[i]? = some t) :
    t.answer = setting.answer? (calls + i) t.notice := by
  induction ps generalizing calls stopping i with
  | nil => cases h
  | cons p rest ih =>
    cases i with
    | zero =>
      cases h
      rfl
    | succ i =>
      rw [ih h, Nat.add_right_comm, Nat.add_assoc]

/-- The block is being stopped from the first turn on, or from behind an interrupt on. -/
theorem stopping_of_getElem?_turnsOf {calls : Nat} {stopping : Bool} {ps : List Process} {i : Nat}
    {t : Turn} (h : (turnsOf setting calls stopping ps)[i]? = some t) :
    t.stopping = true ↔ stopping = true ∨
      ∃ j < i, ∃ u, (turnsOf setting calls stopping ps)[j]? = some u ∧
        u.failure?.isSome = true := by
  induction ps generalizing calls stopping i with
  | nil => cases h
  | cons p rest ih =>
    cases i with
    | zero =>
      cases h
      simp [Turn.ofMember]
    | succ i =>
      rw [ih h, Bool.or_eq_true, or_assoc]
      refine or_congr_right ⟨?_, ?_⟩
      · rintro (hfirst | ⟨j, hj, u, hu, hfailure⟩)
        · exact ⟨0, Nat.succ_pos i, _, rfl, hfirst⟩
        · exact ⟨j + 1, Nat.succ_lt_succ hj, u, hu, hfailure⟩
      · rintro ⟨j, hj, u, hu, hfailure⟩
        cases j with
        | zero =>
          cases hu
          exact .inl hfailure
        | succ j => exact .inr ⟨j, Nat.lt_of_succ_lt_succ hj, u, hu, hfailure⟩

/-- Under an observer that does not break, a turn meets nothing but interrupts. -/
theorem Turn.interrupt_of_failure? (hquiet : setting.QuietOnEnds) {t : Turn} {calls : Nat}
    (hanswer : t.answer = setting.answer? calls t.notice) {f : Failure}
    (hf : t.failure? = some f) : ∃ message, f = .interrupt message := by
  rcases Option.or_eq_some_iff.mp hf with hobserver | ⟨-, hwait⟩
  · rw [hanswer] at hobserver
    exact hquiet _ _ _ f (Setting.answers_of_answer? hobserver)
  · unfold Process.interruption? at hwait
    split at hwait <;> cases hwait
    exact ⟨"", rfl⟩

/-- How a block is left, `ran` being what it has come to: each process that was started in the
    block and has not been waited for takes a turn, and nothing else happens. -/
structure Parted (setting : Setting) (ran : Result Block α) (turns : List Turn)
    (left : Result Block α) : Prop where
  started : ran.state.pids = processes.acquired ran.events
  /-- Those that have not been waited for take their turns in the order of their start. -/
  members : turns.map Turn.member
    = ran.state.group.members.filter fun p => p.pid ∉ processes.released ran.events
  /-- The block is being stopped if it has failed, or once a turn has been interrupted. -/
  stopping : ∀ (i : Nat) (t : Turn), turns[i]? = some t →
    (t.stopping = true ↔ (∃ f, ran.outcome = .error f) ∨
      ∃ j < i, ∃ u, turns[j]? = some u ∧ u.failure?.isSome = true)
  /-- The observer is called once in every turn. -/
  answers : ∀ (i : Nat) (t : Turn), turns[i]? = some t →
    t.answer = setting.answer? (ran.state.machine.hookCalls + i) t.notice
  events : left.events = turns.flatMap (Turn.events setting)
  interrupts : ∀ t ∈ turns, ∀ f, t.failure? = some f → ∃ message, f = .interrupt message
  /-- The failure of the block comes out, or else the last interrupt, or else nothing. -/
  outcome : left.outcome = comesOut ran.outcome turns

theorem leave_parted (hquiet : setting.QuietOnEnds) {m : Machine} {ran : Result Block α}
    (htallies : Tallies { machine := m } ran.events ran.state) (host : Host)
    (hdistinct : (processes.acquired ran.events).Nodup) :
    ∃ turns, Parted setting ran turns (leaving setting host ran) := by
  have hstarted : ran.state.pids = processes.acquired ran.events := htallies.pids
  have hreaped : ran.state.group.reaped = processes.released ran.events := htallies.reaped
  obtain ⟨b', hleave⟩ := leave_eq_turns hquiet (hstarted ▸ hdistinct) ran.outcome host
  refine ⟨turnsOf setting ran.state.machine.hookCalls (!ran.outcome.isOk) ran.state.awaited,
    hstarted, ?_, fun i t h => ?_, fun i t h => answer_of_getElem?_turnsOf h, ?_, ?_, ?_⟩
  · rw [map_member_turnsOf, Block.awaited, hreaped]
  · rw [stopping_of_getElem?_turnsOf h]
    refine or_congr_left ?_
    cases ran.outcome <;> simp [Except.isOk, Except.toBool]
  · rw [leaving, hleave]
  · intro t ht f hf
    obtain ⟨i, h⟩ := List.mem_iff_getElem?.mp ht
    exact Turn.interrupt_of_failure? hquiet (answer_of_getElem?_turnsOf h) hf
  · rw [leaving, hleave]

/-- A block of any starts, waits and terminations, left in whatever way: the processes that have
    not been waited for are terminated and waited for in the order of their start, as the turns
    say. -/
theorem runBlock_parted (hquiet : setting.QuietOnEnds) (steps : List Step) (host : Host)
    (m : Machine) :
    let course := runBlock setting steps host m
    let ran := beforeLeaving setting steps host m
    (processes.acquired ran.events).Nodup →
    ∃ turns left, Parted setting ran turns left ∧
      course.records.flatMap Result.events ++ course.left.events = ran.events ++ left.events ∧
      course.left.outcome = left.outcome ∧ course.left.state = left.state := by
  intro course ran hdistinct
  obtain ⟨turns, hparted⟩ :=
    leave_parted hquiet (runSteps_tallies setting host steps { machine := m }) host hdistinct
  exact ⟨turns, _, hparted, (List.append_assoc ..).symm, rfl, rfl⟩

/-- The second of four processes is interrupted while the block is left, so that the third is
    terminated; the fourth has ended by itself, and the observer interrupts its turn. -/
theorem runBlock_parted_interrupted :
    let m : Machine := { programs := fun program =>
      if program = "q" then [.started { interrupts := 2, running := true }]
      else if program = "r" then [.started { running := true }]
      else [.started {}] }
    let hook : Hook := fun n _ => if n = 7 then some (.interrupt "x") else none
    let setting : Setting := { hook := some hook }
    let steps : List Step := (["p", "q", "r", "s"].map fun program =>
      { operation := .start { program := program } }) ++ [{ operation := .wait 0 }]
    let course := runBlock setting steps {} m
    let ran := beforeLeaving setting steps {} m
    setting.QuietOnEnds ∧ (processes.acquired ran.events).Nodup ∧
      (∃ turns left, Parted setting ran turns left ∧
        course.records.flatMap Result.events ++ course.left.events = ran.events ++ left.events ∧
        course.left.outcome = left.outcome ∧ course.left.state = left.state) ∧
      course.left.outcome = .error (.interrupt "x") := by
  intro m hook setting steps course ran
  have hquiet : setting.QuietOnEnds := by
    rintro pid argv status f ⟨_, n, hhook, hanswer⟩
    cases hhook
    change (if n = 7 then some (Failure.interrupt "x") else none) = some f at hanswer
    split at hanswer <;> cases hanswer
    exact ⟨"x", rfl⟩
  have hdistinct : (processes.acquired ran.events).Nodup := by decide +kernel
  exact ⟨hquiet, hdistinct, runBlock_parted hquiet steps {} m hdistinct, by decide +kernel⟩

end Group

end LineShell
