/-
  LineShell.Proofs.Group.Recycled

  Numbers that the system hands out again.

  A number is free again once the process that has it has been waited for, and a
  later process of the same group may get it.  A group remembers by number who has
  been waited for, so it takes the later process for the earlier one.  The first
  process of a number is waited for exactly once, and a wait for it reports its own
  status, however often it is asked for; any later process of the number is
  overlooked, in the block and when the block is left, and asking for it fails
  (`runBlock_recycled`, `runBlock_overlooks`).  Where no number is handed out twice
  nobody is overlooked.
-/

import LineShell.Proofs.Group.Reported
import LineShell.Proofs.Group.Settled

namespace LineShell

/-! ## Numbers, statuses, interrupts -/

/-- A number is handed out only when all processes that had it before have been waited for. -/
def HandsOutFree (l : List Event) : Prop :=
  ∀ i, ∀ _ : i < l.length, ∀ pid ∈ processes.acquires l[i],
    (processes.acquired (l.take i)).count pid = (processes.released (l.take i)).count pid

instance : DecidablePred HandsOutFree := fun l =>
  inferInstanceAs (Decidable (∀ i, ∀ _ : i < l.length, _))

namespace HandsOutFree

variable {l l₁ l₂ : List Event}

theorem of_append_left (h : HandsOutFree (l₁ ++ l₂)) : HandsOutFree l₁ := by
  intro i hi pid hpid
  have hlonger : i < (l₁ ++ l₂).length := by
    rw [List.length_append]
    omega
  have hcount := h i hlonger pid (by rwa [List.getElem_append_left hi])
  rwa [List.take_append_of_le_length (Nat.le_of_lt hi)] at hcount

/-- Whoever had the number before has been waited for. -/
theorem count_eq {e : Event} {pid : Int} (h : HandsOutFree (l₁ ++ e :: l₂))
    (hpid : pid ∈ processes.acquires e) :
    (processes.acquired l₁).count pid = (processes.released l₁).count pid := by
  have hcount := h l₁.length (by simp) pid (by simpa using hpid)
  rwa [List.take_left] at hcount

end HandsOutFree

/-- The statuses that waits for a number have come to, in order. -/
def endsOf (pid : Int) (l : List Event) : List Int :=
  l.filterMap fun
    | .wait other (some status) => if other = pid then some status else none
    | _ => none

theorem endsOf_append (pid : Int) (l₁ l₂ : List Event) :
    endsOf pid (l₁ ++ l₂) = endsOf pid l₁ ++ endsOf pid l₂ := List.filterMap_append

/-- The number has not been waited for. -/
theorem endsOf_eq_nil {pid : Int} {l : List Event} (h : pid ∉ processes.released l) :
    endsOf pid l = [] := by
  apply List.filterMap_eq_nil_iff.mpr
  intro e he
  split
  · next other status =>
    refine if_neg ?_
    rintro rfl
    exact h (List.mem_flatMap.mpr ⟨_, he, List.mem_singleton_self other⟩)
  · rfl

theorem endsOf_of_neutral {pid : Int} {l : List Event} (h : ∀ e ∈ l, processes.Neutral e) :
    endsOf pid l = [] := by
  apply endsOf_eq_nil
  rw [processes.released_eq_nil fun e he => (h e he).2]
  exact List.not_mem_nil

theorem endsOf_waits (pid other status : Int) (interrupts : Nat) :
    endsOf pid (Process.waits other status interrupts) = if other = pid then [status] else [] := by
  have hinterrupted : endsOf pid (List.replicate interrupts (.wait other none)) = [] := by
    apply List.filterMap_eq_nil_iff.mpr
    intro e he
    rw [List.eq_of_mem_replicate he]
  rw [Process.waits, endsOf_append, hinterrupted, List.nil_append]
  by_cases hother : other = pid <;> simp [endsOf, hother]

/-- The status that the process has ended with, or else the one that it ends with as things
    stand. -/
def Process.endStatus (p : Process) : Int := p.collected.getD p.status

/-- What a wait comes to that reports a process with a status. -/
def Process.ReportedAs (p : Process) (status : Int) (outcome : Except Failure Unit) : Prop :=
  (outcome = .ok () ↔ status = 0) ∧
    ∀ program, p.program? = some program → status ≠ 0 →
      outcome = .error (.exitStatus program status)

/-- No process still to be started interrupts a wait. -/
def Machine.NeverInterrupts (m : Machine) : Prop :=
  ∀ program script, Behaviour.started script ∈ m.programs program → script.interrupts = 0

theorem Machine.NeverInterrupts.of_spends {m m' : Machine} (h : m.NeverInterrupts)
    (hm : m.Spends m') : m'.NeverInterrupts :=
  fun program script hmem => h program script ((hm program).subset hmem)

namespace Group

variable {setting : Setting} {host : Host} {b b' : Block} {l done : List Event} {i : Nat}
  {p : Process}

/-! ## What has become of a member -/

/-- What has become of the member at a position, after events. -/
inductive Standing (l : List Event) (b : Block) (i : Nat) (p : Process) : Prop
  | awaited (hlive : p.pid ∉ b.group.reaped) (hfirst : p.pid ∉ b.pids.take i)
      (hends : endsOf p.pid l = []) (hcollected : p.collected = none)
  | collected {status : Int} (hreaped : p.pid ∈ b.group.reaped) (hfirst : p.pid ∉ b.pids.take i)
      (hends : endsOf p.pid l = [status]) (hcollected : p.collected = some status)
  /-- The member counts as waited for, since one before it has been that had its number. -/
  | overlooked (hreaped : p.pid ∈ b.group.reaped) (hlater : p.pid ∈ b.pids.take i)
      (hcollected : p.collected = none)

/-- How a group stands after the events of its block so far. -/
structure Stands (l : List Event) (b : Block) : Prop where
  pids : b.pids = processes.acquired l
  reaped : b.group.reaped = processes.released l
  standing : ∀ i p, b.member? i = some p → Standing l b i p
  calm : ∀ p ∈ b.group.members, p.interrupts = 0
  machine : b.machine.NeverInterrupts

namespace Stands

theorem pids_append (h : Stands done b) (ht : Tallies b l b') :
    b'.pids = processes.acquired (done ++ l) := by
  rw [ht.pids, h.pids]
  exact (processes.acquired_append done l).symm

theorem reaped_append (h : Stands done b) (ht : Tallies b l b') :
    b'.group.reaped = processes.released (done ++ l) := by
  rw [ht.reaped, h.reaped]
  exact (processes.released_append done l).symm

end Stands

/-- How a group stands is carried over by events, as long as the numbers are handed out free. -/
def Passes (b : Block) (l : List Event) (b' : Block) : Prop :=
  ∀ done, Stands done b → HandsOutFree (done ++ l) → Stands (done ++ l) b'

theorem Passes.isPath : IsPath Passes where
  nil b := by
    intro done h _
    rwa [List.append_nil]
  append h₁ h₂ := by
    intro done h hfree
    rw [← List.append_assoc] at hfree ⊢
    exact h₂ _ (h₁ done h hfree.of_append_left) hfree

/-- What has become of a member stays, as long as what it depends on does. -/
theorem Standing.carry {l' : List Event} {p' : Process} (h : Standing l b i p)
    (hpid : p'.pid = p.pid) (hcollected : p'.collected = p.collected)
    (hends : endsOf p.pid l' = endsOf p.pid l)
    (hreaped : p.pid ∈ b'.group.reaped ↔ p.pid ∈ b.group.reaped)
    (hearlier : p.pid ∈ b'.pids.take i ↔ p.pid ∈ b.pids.take i) : Standing l' b' i p' := by
  rw [← hpid] at hends hreaped hearlier
  cases h with
  | awaited hlive hfirst hnone hnothing =>
    rw [← hpid] at hlive hfirst hnone
    exact .awaited (mt hreaped.mp hlive) (mt hearlier.mp hfirst) (hends.trans hnone)
      (hcollected.trans hnothing)
  | collected hwaited hfirst hsome hstatus =>
    rw [← hpid] at hwaited hfirst hsome
    exact .collected (hreaped.mpr hwaited) (mt hearlier.mp hfirst) (hends.trans hsome)
      (hcollected.trans hstatus)
  | overlooked hwaited hlater hnothing =>
    rw [← hpid] at hwaited hlater
    exact .overlooked (hreaped.mpr hwaited) (hearlier.mpr hlater) (hcollected.trans hnothing)

/-- Events that neither start a process nor end one, and the same members but for whether they
    run. -/
theorem Passes.of_neutral (hl : ∀ e ∈ l, processes.Neutral e) (hpids : b'.pids = b.pids)
    (hreaped : b'.group.reaped = b.group.reaped)
    (hmembers : ∀ i p', b'.member? i = some p' → ∃ p, b.member? i = some p ∧ p'.pid = p.pid ∧
      p'.collected = p.collected ∧ p'.interrupts = p.interrupts)
    (hm : b.machine.Spends b'.machine) : Passes b l b' := by
  intro done h _
  have htallies : Tallies b l b' := .of_neutral hl hpids hreaped
  refine ⟨h.pids_append htallies, h.reaped_append htallies, fun i p' hp' => ?_, fun p' hp' => ?_,
    h.machine.of_spends hm⟩
  · obtain ⟨p, hp, hpid, hcollected, -⟩ := hmembers i p' hp'
    have hends : endsOf p.pid (done ++ l) = endsOf p.pid done := by
      rw [endsOf_append, endsOf_of_neutral hl, List.append_nil]
    exact (h.standing i p hp).carry hpid hcollected hends (by rw [hreaped]) (by rw [hpids])
  · obtain ⟨i, hi⟩ := List.mem_iff_getElem?.mp hp'
    obtain ⟨p, hp, -, -, hinterrupts⟩ := hmembers i p' hi
    exact hinterrupts.trans (h.calm p (List.mem_of_getElem? hp))

/-- A termination changes how a member will end, and nothing that has come of it. -/
theorem passes_terminated (b : Block) (i : Nat) (pid : Int) :
    Passes b [.terminate pid] (b.modifyMember i Process.terminated) := by
  refine .of_neutral (List.forall_mem_singleton.mpr ⟨rfl, rfl⟩) (Block.pids_terminated ..) rfl ?_
    fun _ => List.suffix_rfl
  intro j p' hp'
  rw [Block.member?_modifyMember_ite] at hp'
  obtain ⟨p, hp, rfl⟩ := Option.map_eq_some_iff.mp hp'
  refine ⟨p, hp, ?_⟩
  split <;> exact ⟨rfl, rfl, rfl⟩

/-! ## Starting -/

section Spawned

variable {l₁ l₂ : List Event} {pid : Int} {argv : List String} {stdin stdout stderr : Stream}
  {env : Option Environment} (hl₁ : ∀ e ∈ l₁, processes.Neutral e)

include hl₁

/-- A start ends nobody. -/
theorem endsOf_spawned (hl₂ : ∀ e ∈ l₂, processes.Neutral e) (other : Int) :
    endsOf other (done ++ (l₁ ++ .spawn pid argv stdin stdout stderr env :: l₂))
      = endsOf other done := by
  have hspawn : endsOf other (.spawn pid argv stdin stdout stderr env :: l₂) = endsOf other l₂ :=
    rfl
  rw [endsOf_append, endsOf_append, endsOf_of_neutral hl₁, hspawn, endsOf_of_neutral hl₂,
    List.append_nil, List.append_nil]

/-- Whoever had the number before a start has been waited for. -/
theorem count_spawned
    (h : HandsOutFree (done ++ (l₁ ++ .spawn pid argv stdin stdout stderr env :: l₂))) :
    (processes.acquired done).count pid = (processes.released done).count pid := by
  rw [← List.append_assoc] at h
  have hcount := h.count_eq (List.mem_singleton_self pid)
  rwa [processes.acquired_append, processes.released_append,
    processes.acquired_eq_nil fun e he => (hl₁ e he).1,
    processes.released_eq_nil fun e he => (hl₁ e he).2, List.append_nil, List.append_nil] at hcount

end Spawned

/-- A new member is the first of its number, or else all before it that had the number have been
    waited for. -/
theorem standing_addMember {l' : List Event} {m : Machine} (h : Stands l b)
    (hcollected : p.collected = none) (hends : endsOf p.pid l' = endsOf p.pid l)
    (hcount : (processes.acquired l).count p.pid = (processes.released l).count p.pid) :
    Standing l' (({ b with machine := m } : Block).addMember p) b.group.members.length p := by
  have hearlier : (({ b with machine := m } : Block).addMember p).pids.take
      b.group.members.length = b.pids := by
    have hlength : b.group.members.length = b.pids.length := (List.length_map ..).symm
    rw [Block.pids_addMember, hlength]
    exact List.take_left
  by_cases hmem : p.pid ∈ b.pids
  · refine .overlooked ?_ (hearlier ▸ hmem) hcollected
    rw [h.pids, ← List.count_pos_iff, hcount, List.count_pos_iff] at hmem
    exact h.reaped ▸ hmem
  · have hlive : p.pid ∉ processes.released l := by
      rwa [h.pids, ← List.count_eq_zero, hcount, List.count_eq_zero] at hmem
    refine .awaited ?_ (hearlier ▸ hmem) ?_ hcollected
    · exact h.reaped ▸ hlive
    · rw [hends, endsOf_eq_nil hlive]

theorem passes_addMember {l₁ l₂ : List Event} {m : Machine} {argv : List String}
    {stdin stdout stderr : Stream} {env : Option Environment}
    (hl₁ : ∀ e ∈ l₁, processes.Neutral e) (hl₂ : ∀ e ∈ l₂, processes.Neutral e)
    (hcollected : p.collected = none) (hm : b.machine.Spends m)
    (hinterrupts : b.machine.NeverInterrupts → p.interrupts = 0) :
    Passes b (l₁ ++ .spawn p.pid argv stdin stdout stderr env :: l₂)
      (({ b with machine := m } : Block).addMember p) := by
  intro done h hfree
  have hpids' : (({ b with machine := m } : Block).addMember p).pids = b.pids ++ [p.pid] :=
    Block.pids_addMember ..
  have htallies : Tallies b (l₁ ++ .spawn p.pid argv stdin stdout stderr env :: l₂)
      (({ b with machine := m } : Block).addMember p) := .of_spawn hl₁ hl₂ hpids' rfl
  refine ⟨h.pids_append htallies, h.reaped_append htallies, fun i q hq => ?_, fun q hq => ?_,
    h.machine.of_spends hm⟩
  · change (b.group.members ++ [p])[i]? = some q at hq
    rcases Nat.lt_or_ge i b.group.members.length with hi | hi
    -- A member that was there before.
    · rw [List.getElem?_append_left hi] at hq
      have hlength : i ≤ b.pids.length := by
        rw [Block.pids, List.length_map]
        omega
      refine (h.standing i q hq).carry rfl rfl (endsOf_spawned hl₁ hl₂ q.pid) Iff.rfl ?_
      rw [hpids', List.take_append_of_le_length hlength]
    -- The new one.
    · obtain ⟨rfl, rfl⟩ : i = b.group.members.length ∧ p = q := by
        rw [List.getElem?_append_right hi] at hq
        obtain ⟨hlt, hget⟩ := List.getElem?_eq_some_iff.mp hq
        rw [List.length_singleton] at hlt
        exact ⟨by omega, by simpa using hget⟩
      exact standing_addMember h hcollected (endsOf_spawned hl₁ hl₂ p.pid)
        (count_spawned hl₁ hfree)
  · rcases List.mem_append.mp hq with hq | hq
    · exact h.calm q hq
    · rw [List.mem_singleton.mp hq]
      exact hinterrupts h.machine

theorem starts_passes : Starts setting Passes where
  toIsPath := Passes.isPath
  start invocation host b := by
    have hspec := start_spec setting invocation host b
    generalize start setting invocation host b = r at hspec
    have hflushed : ∀ e ∈ b.machine.flushed, processes.Neutral e :=
      fun e he => (idle_of_mem_flushed he).neutral
    cases hspec with
    | refused _ hm =>
      exact .of_neutral hflushed rfl rfl (fun _ p hp => ⟨p, hp, rfl, rfl, rfl⟩) hm.programs
    | failed _ hm =>
      refine .of_neutral (fun e he => ?_) rfl rfl (fun _ p hp => ⟨p, hp, rfl, rfl, rfl⟩) hm.programs
      rcases List.mem_append.mp he with he | he
      · exact hflushed e he
      · cases List.mem_singleton.mp he
        exact ⟨rfl, rfl⟩
    | running outcome p message hscript hp hm =>
      refine passes_addMember hflushed (fun e he => (idle_of_mem_notices he).neutral)
        (by rw [hp]; rfl) hm.programs fun hnever => ?_
      rw [hp]
      exact hnever _ _ (hscript.resolve_left nofun)
  pipe host b := by
    simp only [Action.inBlock, Action.zoom_apply, Machine.pipe_apply]
    split <;> exact .of_neutral (List.forall_mem_singleton.mpr ⟨rfl, rfl⟩) rfl rfl
      (fun _ p hp => ⟨p, hp, rfl, rfl, rfl⟩) fun _ => List.suffix_rfl
  close b fd := .of_neutral (List.forall_mem_singleton.mpr ⟨rfl, rfl⟩) rfl rfl
    (fun _ p hp => ⟨p, hp, rfl, rfl, rfl⟩) fun _ => List.suffix_rfl

/-! ## Waiting -/

theorem mem_take_pids {j : Nat} (hp : b.member? j = some p) (hj : j < i) :
    p.pid ∈ b.pids.take i := by
  refine List.mem_of_getElem? (i := j) ?_
  rw [List.getElem?_take_of_lt hj, Block.getElem?_pids, hp]
  rfl

/-- Of the members with one number only the first can still be waited for. -/
theorem Stands.eq_of_live (h : Stands l b) {j : Nat} {q : Process} (hp : b.member? i = some p)
    (hq : b.member? j = some q) (hpid : q.pid = p.pid) (hlive : p.pid ∉ b.group.reaped) :
    j = i := by
  have hfirst : ∀ k r, b.member? k = some r → r.pid = p.pid → p.pid ∉ b.pids.take k := by
    intro k r hr hsame
    cases h.standing k r hr with
    | awaited _ hfirst => exact hsame ▸ hfirst
    | collected hreaped => exact absurd (hsame ▸ hreaped) hlive
    | overlooked hreaped => exact absurd (hsame ▸ hreaped) hlive
  rcases Nat.lt_trichotomy j i with hlt | heq | hgt
  · exact absurd (hpid ▸ mem_take_pids hq hlt) (hfirst i p hp rfl)
  · exact heq
  · exact absurd (mem_take_pids hp hgt) (hfirst j q hq hpid)

/-- Waiting for a member leaves all others as they are. -/
theorem passes_ended {m : Machine} (hp : b.member? i = some p) (hlive : p.pid ∉ b.group.reaped)
    (hl : ∀ e ∈ l, processes.Neutral e) (hm : b.machine.Spends m) :
    Passes b (Process.waits p.pid p.status p.interrupts ++ l)
      ((({ b with machine := m } : Block).modifyMember i Process.ended).markReaped p.pid) := by
  intro done h _
  have hpids : ((({ b with machine := m } : Block).modifyMember i Process.ended).markReaped
      p.pid).pids = b.pids := by
    rw [Block.pids_markReaped, Block.pids_ended]
    rfl
  have htallies : Tallies b (Process.waits p.pid p.status p.interrupts ++ l)
      ((({ b with machine := m } : Block).modifyMember i Process.ended).markReaped p.pid) :=
    .of_wait hlive hl hpids rfl
  have hends : ∀ pid, endsOf pid (done ++ (Process.waits p.pid p.status p.interrupts ++ l))
      = endsOf pid done ++ if p.pid = pid then [p.status] else [] := by
    intro pid
    rw [endsOf_append, endsOf_append, endsOf_waits, endsOf_of_neutral hl, List.append_nil]
  refine ⟨h.pids_append htallies, h.reaped_append htallies, fun j q' hq' => ?_, fun q' hq' => ?_,
    h.machine.of_spends hm⟩
  · obtain ⟨q, hq, rfl⟩ := member?_waited hq'
    by_cases hij : i = j
    · subst hij
      obtain rfl : p = q := Option.some.inj (hp.symm.trans hq)
      rw [if_pos rfl]
      cases h.standing i p hp with
      | awaited _ hfirst hnone _ =>
        have hcame : endsOf p.pid (done ++ (Process.waits p.pid p.status p.interrupts ++ l))
            = [p.status] := by
          rw [hends, hnone, if_pos rfl, List.nil_append]
        exact .collected (List.mem_append_right _ (List.mem_singleton_self _)) (hpids ▸ hfirst)
          hcame rfl
      | collected hreaped => exact absurd hreaped hlive
      | overlooked hreaped => exact absurd hreaped hlive
    · rw [if_neg hij]
      have hne : q.pid ≠ p.pid := fun hsame => hij (h.eq_of_live hp hq hsame hlive).symm
      refine (h.standing j q hq).carry rfl rfl ?_ ?_ (by rw [hpids])
      · rw [hends, if_neg (Ne.symm hne), List.append_nil]
      · simp [hne]
  · obtain ⟨j, hj⟩ := List.mem_iff_getElem?.mp hq'
    obtain ⟨q, hq, rfl⟩ := member?_waited hj
    have hcalm := h.calm q (List.mem_of_getElem? hq)
    split
    · rfl
    · exact hcalm

theorem tends_passes : Tends setting Passes where
  toIsPath := Passes.isPath
  log b source message := .of_neutral (List.forall_mem_singleton.mpr ⟨rfl, rfl⟩) rfl rfl
    (fun _ p hp => ⟨p, hp, rfl, rfl, rfl⟩) fun _ => List.suffix_rfl
  reap i host b := by
    have hspec := reap_spec setting i host b
    generalize reap setting i host b = r at hspec
    cases hspec with
    | absent => exact Passes.isPath.nil b
    | again => exact Passes.isPath.nil b
    | ended outcome message hp hlive hm =>
      exact passes_ended hp hlive (fun e he => (idle_of_mem_notices he).neutral) hm.programs
  terminate {b i p} _ _ := passes_terminated b i p.pid

/-! ## What a wait reports -/

theorem judge_reportedAs (status : Int) :
    p.ReportedAs status (judge (some status) (some p)) := by
  by_cases hstatus : status = 0
  · subst hstatus
    exact ⟨⟨fun _ => rfl, fun _ => rfl⟩, fun _ _ hne => absurd rfl hne⟩
  · constructor
    · cases hprogram : p.program? <;> simp [judge, hstatus, hprogram]
    · intro program hprogram _
      simp [judge, hstatus, hprogram]

/-- A member that counts as waited for is not waited for again. -/
theorem wait_of_reaped (setting : Setting) (hp : b.member? i = some p)
    (hreaped : p.pid ∈ b.group.reaped) (host : Host) :
    wait setting i host b = ⟨judge p.collected (some p), b, []⟩ := by
  rw [wait_apply, reap_of_reaped setting host hp hreaped, Result.andThen_ok, hp]
  rfl

/-- The first member of a number is reported with its own status, and has been waited for once
    when it has been reported. -/
theorem wait_of_first (hsilent : setting.Silent) (h : Stands l b) (hp : b.member? i = some p)
    (hfirst : p.pid ∉ b.pids.take i) (host : Host) :
    p.ReportedAs p.endStatus (wait setting i host b).outcome ∧
      endsOf p.pid (l ++ (wait setting i host b).events) = [p.endStatus] := by
  rw [Process.endStatus]
  cases h.standing i p hp with
  | awaited hlive _ hnone hcollected =>
    have hinterrupts : p.interrupts = 0 := h.calm p (List.mem_of_getElem? hp)
    have htail : endsOf p.pid (.log .process s!"reaped pid {p.pid} (status {p.status})" ::
        setting.notices (.reaped p.pid p.args p.status)) = [] :=
      endsOf_of_neutral fun e he => (idle_of_mem_notices he).neutral
    rw [wait_apply, reap_apply host hsilent hp hlive, hinterrupts, if_neg (Nat.lt_irrefl 0),
      Result.andThen_ok, member?_ended hp, hcollected]
    refine ⟨judge_reportedAs (p := p.ended) p.status, ?_⟩
    rw [Result.events_after, List.append_nil, endsOf_append, endsOf_append, hnone, endsOf_waits,
      if_pos rfl, htail]
    rfl
  | collected hreaped _ hends hcollected =>
    rw [wait_of_reaped setting hp hreaped, hcollected]
    exact ⟨judge_reportedAs _, by rw [List.append_nil, hends]; rfl⟩
  | overlooked _ hlater => exact absurd hlater hfirst

/-- Any later member of a number is neither waited for nor reported. -/
theorem wait_of_later (h : Stands l b) (hp : b.member? i = some p)
    (hlater : p.pid ∈ b.pids.take i) (host : Host) :
    wait setting i host b =
      ⟨.error (if p.args.isEmpty then outOfRange else noStatus), b, []⟩ := by
  cases h.standing i p hp with
  | awaited _ hfirst => exact absurd hlater hfirst
  | collected _ hfirst => exact absurd hlater hfirst
  | overlooked hreaped _ hcollected =>
    rw [wait_of_reaped setting hp hreaped, hcollected]
    cases hargs : p.args <;> simp [judge, Process.program?, hargs]

/-! ## Whole blocks -/

theorem beforeLeaving_stands (setting : Setting) (steps : List Step) (host : Host) (m : Machine)
    (hnever : m.NeverInterrupts) (hfree : HandsOutFree (beforeLeaving setting steps host m).events) :
    Stands (beforeLeaving setting steps host m).events
      (beforeLeaving setting steps host m).state := by
  have hnew : Stands [] { machine := m } := ⟨rfl, rfl, nofun, nofun, hnever⟩
  have hsteps : Passes { machine := m } (beforeLeaving setting steps host m).events
      (beforeLeaving setting steps host m).state := by
    refine runSteps_keeps Passes.isPath (fun step => ?_) host steps { machine := m }
    exact .bind Passes.isPath (step.operation.action_keeps starts_passes tends_passes
      passes_terminated) fun _ => .pure Passes.isPath _
  exact hsteps [] hnew hfree

/-- What waits report of the processes of a block, `ran` being what it has come to and `left` how
    it is left: the first process of each number is reported with its own status and is waited for
    once, and any later one is not. -/
structure Attributed (setting : Setting) (host : Host) (ran left : Result Block Unit) : Prop where
  started : left.state.pids = processes.acquired (ran.events ++ left.events)
  /-- However often a wait asks for the process. -/
  reported : ∀ i p, ran.state.member? i = some p → p.pid ∉ ran.state.pids.take i →
    p.ReportedAs p.endStatus (wait setting i host ran.state).outcome ∧
      endsOf p.pid (ran.events ++ (wait setting i host ran.state).events) = [p.endStatus]
  refused : ∀ i p, ran.state.member? i = some p → p.pid ∈ ran.state.pids.take i →
    wait setting i host ran.state =
      ⟨.error (if p.args.isEmpty then outOfRange else noStatus), ran.state, []⟩
  ended : ∀ i p, left.state.member? i = some p → p.pid ∉ left.state.pids.take i →
    endsOf p.pid (ran.events ++ left.events) = [p.endStatus]
  overlooked : ∀ i p, left.state.member? i = some p → p.pid ∈ left.state.pids.take i →
    p.collected = none

/-- A block of any steps on a system that hands out numbers again. -/
theorem runBlock_recycled (hsilent : setting.Silent) (steps : List Step) (host : Host)
    (m : Machine) (hnever : m.NeverInterrupts) :
    let course := runBlock setting steps host m
    let ran := beforeLeaving setting steps host m
    let left := leaving setting host ran
    HandsOutFree (ran.events ++ left.events) →
    course.records.flatMap Result.events ++ course.left.events = ran.events ++ left.events ∧
      course.left.outcome = left.outcome ∧ course.left.state = left.state ∧
      Attributed setting host ran left := by
  intro course ran left hfree
  have hran : Stands ran.events ran.state :=
    beforeLeaving_stands setting steps host m hnever hfree.of_append_left
  have hleft : Stands (ran.events ++ left.events) left.state :=
    tends_passes.leave ran.outcome host ran.state ran.events hran hfree
  -- Once the block has been left, all its members count as waited for.
  have hreaped : ∀ i p, left.state.member? i = some p → p.pid ∈ left.state.group.reaped := by
    intro i p hp
    have hpending : left.state.pending = ∅ :=
      leave_quiet hsilent.quietOnEnds ran.outcome host ran.state
    rw [Block.pending, Finset.sdiff_eq_empty_iff_subset] at hpending
    have hmem := List.mem_toFinset.mpr (Block.mem_pids_of_member? hp)
    exact List.mem_toFinset.mp (hpending hmem)
  refine ⟨(List.append_assoc ..).symm, rfl, rfl, hleft.pids, fun i p hp hfirst => ?_,
    fun i p hp hlater => ?_, fun i p hp hfirst => ?_, fun i p hp hlater => ?_⟩
  · exact wait_of_first hsilent hran hp hfirst host
  · exact wait_of_later hran hp hlater host
  · cases hleft.standing i p hp with
    | awaited hlive => exact absurd (hreaped i p hp) hlive
    | collected _ _ hends hcollected => rw [hends, Process.endStatus, hcollected]; rfl
    | overlooked _ hlater => exact absurd hlater hfirst
  · cases hleft.standing i p hp with
    | awaited _ hfirst => exact absurd hlater hfirst
    | collected _ hfirst => exact absurd hlater hfirst
    | overlooked _ _ hcollected => exact hcollected

/-- Two processes of one number, the first of which is asked for twice. -/
theorem runBlock_recycled_twice :
    let m : Machine := { programs := fun program =>
      if program = "p" then [.started { pid? := some 7, status := 2 }]
      else [.started { pid? := some 7, status := 3 }] }
    let steps : List Step := [{ operation := .start { program := "p" } },
      { operation := .wait 0 }, { operation := .start { program := "q" } },
      { operation := .wait 0 }]
    let course := runBlock {} steps {} m
    let ran := beforeLeaving {} steps {} m
    let left := leaving {} {} ran
    Setting.Silent {} ∧ m.NeverInterrupts ∧ HandsOutFree (ran.events ++ left.events) ∧
      course.records.flatMap Result.events ++ course.left.events = ran.events ++ left.events ∧
      course.left.outcome = left.outcome ∧ course.left.state = left.state ∧
      Attributed {} {} ran left ∧ ran.state.pids = [7, 7] := by
  intro m steps course ran left
  have hsilent : Setting.Silent {} := fun _ h => nomatch h
  have hnever : m.NeverInterrupts := by
    intro program script hscript
    change Behaviour.started script ∈ (if program = "p" then _ else _) at hscript
    split at hscript <;> cases List.mem_singleton.mp hscript <;> rfl
  have hfree : HandsOutFree (ran.events ++ left.events) := by decide +kernel
  obtain ⟨hevents, houtcome, hstate, hattributed⟩ :=
    runBlock_recycled hsilent steps {} m hnever hfree
  exact ⟨hsilent, hnever, hfree, hevents, houtcome, hstate, hattributed, by decide +kernel⟩

/-- The second process of a number has ended with the status zero, and the wait for it fails all
    the same; there is no wait for it in the end. -/
theorem runBlock_overlooks :
    let m : Machine := { programs := fun _ => [.started { pid? := some 7 }] }
    let steps : List Step := [{ operation := .start { program := "p" } },
      { operation := .wait 0 }, { operation := .start { program := "q" } },
      { operation := .wait 1 }]
    let course := runBlock {} steps {} m
    let l := course.records.flatMap Result.events ++ course.left.events
    HandsOutFree l ∧ (course.left.state.member? 1).map Process.status = some 0 ∧
      course.records.map Result.failure? = [none, none, none, some noStatus] ∧
      (processes.acquired l).count 7 = 2 ∧ (processes.released l).count 7 = 1 := by
  decide +kernel

end Group

end LineShell
