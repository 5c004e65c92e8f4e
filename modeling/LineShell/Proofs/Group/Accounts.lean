/-
  LineShell.Proofs.Group.Accounts

  The processes of a group, from their start to the wait for them.

  The numbers of the members are those started, and the numbers that a group
  remembers are those waited for (`Tallies`).  While the numbers of the members are
  distinct, the processes that are held are the members that have not been waited
  for (`Follows`): every start adds one and every wait takes one away.
-/

import LineShell.Proofs.Event.Announced
import LineShell.Proofs.Group.Tends

namespace LineShell

/-- The processes that have not been waited for. -/
def Block.pending (b : Block) : Finset Int := b.pids.toFinset \ b.group.reaped.toFinset

namespace Group

variable {setting : Setting}

/-! ## What the observer is told -/

theorem notices_of_hook (h : setting.hook.isSome = true) (event : ProcessEvent) :
    setting.notices event = [.hook event] := if_pos h

theorem announced_flushed (m : Machine) : Announced m.flushed := by
  apply Announced.of_forall
  intro e he
  obtain ⟨text, rfl⟩ := Machine.mem_flushed he
  rfl

theorem tends_announced (h : setting.hook.isSome = true) :
    Tends setting fun _ l _ => Announced l where
  nil _ := .nil
  append := .append
  log _ _ _ := .other rfl .nil
  reap i host b := by
    have hspec := reap_spec setting i host b
    generalize reap setting i host b = r at hspec
    cases hspec with
    | absent => exact .nil
    | again => exact .nil
    | @ended p m outcome message _ _ _ _ =>
      have hinterrupted : Announced (List.replicate p.interrupts (.wait p.pid none)) := by
        apply Announced.of_forall
        intro e he
        rw [List.eq_of_mem_replicate he]
        rfl
      rw [notices_of_hook h, Process.waits, List.append_assoc]
      exact hinterrupted.append (.reaped p.pid p.args p.status .process message .nil)
  terminate _ _ := .other rfl .nil

theorem starts_announced (h : setting.hook.isSome = true) :
    Starts setting fun _ l _ => Announced l where
  nil _ := .nil
  append := .append
  start invocation host b := by
    have hspec := start_spec setting invocation host b
    generalize start setting invocation host b = r at hspec
    cases hspec with
    | refused => exact announced_flushed b.machine
    | failed => exact (announced_flushed b.machine).append (.other rfl .nil)
    | running outcome p message _ =>
      rw [notices_of_hook h]
      exact (announced_flushed b.machine).append
        (.spawned p.pid invocation.argv _ _ _ _ .process message .nil)
  pipe host b := by
    simp only [Action.inBlock, Action.zoom_apply, Machine.pipe_apply]
    split <;> exact .other rfl .nil
  close _ _ := .other rfl .nil

/-! ## What is started and what is waited for -/

/-- The numbers of the members are those started, and the numbers remembered are those waited
    for, none of them twice. -/
structure Tallies (b : Block) (l : List Event) (b' : Block) : Prop where
  pids : b'.pids = b.pids ++ processes.acquired l
  reaped : b'.group.reaped = b.group.reaped ++ processes.released l
  nodup : b.group.reaped.Nodup → b'.group.reaped.Nodup

namespace Tallies

variable {b b' : Block} {l : List Event}

theorem isPath : IsPath Tallies where
  nil b := ⟨(List.append_nil _).symm, (List.append_nil _).symm, id⟩
  append h₁ h₂ :=
    { pids := by rw [h₂.pids, h₁.pids, Custody.acquired_append, List.append_assoc]
      reaped := by rw [h₂.reaped, h₁.reaped, Custody.released_append, List.append_assoc]
      nodup := fun h => h₂.nodup (h₁.nodup h) }

/-- Events that neither start a process nor end one, and the same members. -/
theorem of_neutral (hl : ∀ e ∈ l, processes.Neutral e) (hpids : b'.pids = b.pids)
    (hreaped : b'.group.reaped = b.group.reaped) : Tallies b l b' where
  pids := by rw [processes.acquired_eq_nil fun e he => (hl e he).1, List.append_nil, hpids]
  reaped := by rw [processes.released_eq_nil fun e he => (hl e he).2, List.append_nil, hreaped]
  nodup h := by rwa [hreaped]

theorem acquired_waits (pid status : Int) (interrupts : Nat) :
    processes.acquired (Process.waits pid status interrupts) = [] := by
  apply processes.acquired_eq_nil
  intro e he
  obtain ⟨status?, rfl⟩ := Process.mem_waits he
  rfl

theorem released_waits (pid status : Int) (interrupts : Nat) :
    processes.released (Process.waits pid status interrupts) = [pid] := by
  have hinterrupted : processes.released (List.replicate interrupts (.wait pid none)) = [] := by
    apply processes.released_eq_nil
    intro e he
    rw [List.eq_of_mem_replicate he]
    rfl
  rw [Process.waits, Custody.released_append, hinterrupted]
  rfl

/-- One of the members has been waited for. -/
theorem of_wait {pid status : Int} {interrupts : Nat} (hpid : pid ∉ b.group.reaped)
    (hl : ∀ e ∈ l, processes.Neutral e) (hpids : b'.pids = b.pids)
    (hreaped : b'.group.reaped = b.group.reaped ++ [pid]) :
    Tallies b (Process.waits pid status interrupts ++ l) b' where
  pids := by
    rw [Custody.acquired_append, acquired_waits, processes.acquired_eq_nil fun e he => (hl e he).1,
      hpids]
    exact (List.append_nil _).symm
  reaped := by
    rw [Custody.released_append, released_waits, processes.released_eq_nil fun e he => (hl e he).2,
      List.append_nil, hreaped]
  nodup h := by
    rw [hreaped]
    exact h.append (List.nodup_singleton pid) (by simpa using hpid)

/-- There is a new member. -/
theorem of_spawn {l₁ l₂ : List Event} {pid : Int} {argv : List String}
    {stdin stdout stderr : Stream} {env : Option Environment}
    (hl₁ : ∀ e ∈ l₁, processes.Neutral e) (hl₂ : ∀ e ∈ l₂, processes.Neutral e)
    (hpids : b'.pids = b.pids ++ [pid]) (hreaped : b'.group.reaped = b.group.reaped) :
    Tallies b (l₁ ++ .spawn pid argv stdin stdout stderr env :: l₂) b' where
  pids := by
    have hspawn : processes.acquired (.spawn pid argv stdin stdout stderr env :: l₂)
        = pid :: processes.acquired l₂ := rfl
    rw [Custody.acquired_append, hspawn, processes.acquired_eq_nil fun e he => (hl₁ e he).1,
      processes.acquired_eq_nil fun e he => (hl₂ e he).1, hpids]
    rfl
  reaped := by
    have hspawn : processes.released (.spawn pid argv stdin stdout stderr env :: l₂)
        = processes.released l₂ := rfl
    rw [Custody.released_append, hspawn, processes.released_eq_nil fun e he => (hl₁ e he).2,
      processes.released_eq_nil fun e he => (hl₂ e he).2, hreaped]
    exact (List.append_nil _).symm
  nodup h := by rwa [hreaped]

end Tallies

/-! ## What is held -/

/-- While the numbers of the members are distinct, the processes held are the members that have
    not been waited for. -/
structure Follows (b : Block) (l : List Event) (b' : Block) : Prop extends Tallies b l b' where
  sound : b.group.reaped ⊆ b.pids → b'.group.reaped ⊆ b'.pids
  run : b.group.reaped ⊆ b.pids → b'.pids.Nodup → processes.run b.pending l = some b'.pending

namespace Follows

variable {b b' : Block} {l : List Event}

theorem isPath : IsPath Follows where
  nil b := ⟨Tallies.isPath.nil b, id, fun _ _ => rfl⟩
  append h₁ h₂ :=
    { toTallies := Tallies.isPath.append h₁.toTallies h₂.toTallies
      sound := fun h => h₂.sound (h₁.sound h)
      run := by
        intro h hnodup
        have hfirst := hnodup
        rw [h₂.pids] at hfirst
        exact processes.run_isPath.append (h₁.run h hfirst.of_append_left)
          (h₂.run (h₁.sound h) hnodup) }

/-- Events about no process, and the same members. -/
theorem of_idle (hl : ∀ e ∈ l, processes.Idle e) (hpids : b'.pids = b.pids)
    (hreaped : b'.group.reaped = b.group.reaped) : Follows b l b' where
  toTallies := .of_neutral (fun e he => (hl e he).neutral) hpids hreaped
  sound h := by rwa [hreaped, hpids]
  run _ _ := by
    rw [Block.pending, Block.pending, hpids, hreaped]
    exact processes.run_of_idle _ hl

/-- Waiting for a process gives it back. -/
theorem run_waits {held : Finset Int} {pid : Int} (h : pid ∈ held) (status : Int)
    (interrupts : Nat) :
    processes.run held (Process.waits pid status interrupts) = some (held \ {pid}) := by
  have hinterrupted : processes.run held (List.replicate interrupts (.wait pid none))
      = some held := by
    apply processes.run_of_steps
    intro e he
    rw [List.eq_of_mem_replicate he]
    exact processes.step_of_uses rfl rfl (by simpa [processes] using h)
  have hallowed : processes.Allows held (.wait pid (some status)) := by
    simpa [Custody.Allows, processes] using h
  have hended : processes.run held [.wait pid (some status)] = some (held \ {pid}) := by
    rw [Custody.run_cons, Custody.step, if_pos hallowed, Option.bind_some, Custody.run_nil]
    exact congrArg (fun rest => some (rest \ {pid})) (Finset.union_empty held)
  exact processes.run_isPath.append hinterrupted hended

/-- One of the members has been waited for. -/
theorem of_wait {pid status : Int} {interrupts : Nat} (hmem : pid ∈ b.pids)
    (hpid : pid ∉ b.group.reaped) (hl : ∀ e ∈ l, processes.Idle e) (hpids : b'.pids = b.pids)
    (hreaped : b'.group.reaped = b.group.reaped ++ [pid]) :
    Follows b (Process.waits pid status interrupts ++ l) b' where
  toTallies := .of_wait hpid (fun e he => (hl e he).neutral) hpids hreaped
  sound h := by
    rw [hreaped, hpids]
    exact List.append_subset.mpr ⟨h, by simpa using hmem⟩
  run _ _ := by
    have hheld : pid ∈ b.pending := by simp [Block.pending, hmem, hpid]
    have hpending : b'.pending = b.pending \ {pid} := by
      ext other
      simp only [Block.pending, hpids, hreaped, Finset.mem_sdiff, List.mem_toFinset,
        List.mem_append, List.mem_singleton, Finset.mem_singleton, not_or, and_assoc]
    rw [hpending]
    exact processes.run_isPath.append (run_waits hheld status interrupts)
      (processes.run_of_idle _ hl)

/-- There is a new member. -/
theorem of_spawn {l₁ l₂ : List Event} {pid : Int} {argv : List String}
    {stdin stdout stderr : Stream} {env : Option Environment}
    (hl₁ : ∀ e ∈ l₁, processes.Idle e) (hl₂ : ∀ e ∈ l₂, processes.Idle e)
    (hpids : b'.pids = b.pids ++ [pid]) (hreaped : b'.group.reaped = b.group.reaped) :
    Follows b (l₁ ++ .spawn pid argv stdin stdout stderr env :: l₂) b' where
  toTallies := .of_spawn (fun e he => (hl₁ e he).neutral) (fun e he => (hl₂ e he).neutral)
    hpids hreaped
  sound h := by
    rw [hreaped, hpids]
    exact List.Subset.trans h (List.subset_append_left _ _)
  run hsound hnodup := by
    -- The numbers are distinct with the new one, so it is none of those before, and since only
    -- members are marked as waited for, the new one is not marked.
    rw [hpids] at hnodup
    have hpid : pid ∉ b.pids := by
      intro hmem
      exact List.disjoint_of_nodup_append hnodup hmem List.mem_cons_self
    have hreaped' : pid ∉ b.group.reaped := fun hmem => hpid (hsound hmem)
    have hallowed : processes.Allows b.pending (.spawn pid argv stdin stdout stderr env) := by
      simp [Custody.Allows, processes, Block.pending, hpid]
    have hpending : (b.pending ∪ [pid].toFinset) \ ([] : List Int).toFinset = b'.pending := by
      ext other
      by_cases hother : other = pid <;> simp [Block.pending, hpids, hreaped, hother, hreaped']
    have hspawn : processes.run b.pending (.spawn pid argv stdin stdout stderr env :: l₂)
        = some b'.pending := by
      rw [Custody.run_cons, Custody.step, if_pos hallowed, ← hpending]
      exact processes.run_of_idle _ hl₂
    exact processes.run_isPath.append (processes.run_of_idle _ hl₁) hspawn

end Follows

theorem idle_of_mem_flushed {m : Machine} {e : Event} (he : e ∈ m.flushed) :
    processes.Idle e := by
  obtain ⟨text, rfl⟩ := Machine.mem_flushed he
  exact ⟨rfl, rfl, rfl⟩

theorem idle_of_mem_notices {event : ProcessEvent} {source : LogSource} {message : String}
    {e : Event} (he : e ∈ .log source message :: setting.notices event) : processes.Idle e := by
  rcases List.mem_cons.mp he with rfl | he
  · exact ⟨rfl, rfl, rfl⟩
  · rw [Setting.mem_notices he]
    exact ⟨rfl, rfl, rfl⟩

theorem tends_follows : Tends setting Follows where
  toIsPath := Follows.isPath
  log b source message := .of_idle (List.forall_mem_singleton.mpr ⟨rfl, rfl, rfl⟩) rfl rfl
  reap i host b := by
    have hspec := reap_spec setting i host b
    generalize reap setting i host b = r at hspec
    cases hspec with
    | absent => exact Follows.isPath.nil b
    | again => exact Follows.isPath.nil b
    | @ended p m outcome message h hp _ _ =>
      have hmem : p.pid ∈ b.pids := Block.mem_pids_of_member? h
      refine .of_wait hmem hp (fun e he => idle_of_mem_notices he) ?_ rfl
      rw [Block.pids_markReaped, Block.pids_ended]
      rfl
  terminate := by
    intro b i p h hp
    have htallies : Tallies b [.terminate p.pid] (b.modifyMember i Process.terminated) :=
      .of_neutral (List.forall_mem_singleton.mpr ⟨rfl, rfl⟩) (Block.pids_terminated ..) rfl
    have hheld : p.pid ∈ b.pending := by
      simp [Block.pending, Block.mem_pids_of_member? h, hp]
    have hstep : processes.step b.pending (.terminate p.pid) = some b.pending :=
      processes.step_of_uses rfl rfl (by simpa [processes] using hheld)
    have hpending : (b.modifyMember i Process.terminated).pending = b.pending := by
      rw [Block.pending, Block.pids_terminated, Block.reaped_modifyMember, ← Block.pending]
    refine ⟨htallies, ?_, fun _ _ => ?_⟩
    · intro hsound
      rwa [Block.pids_terminated, Block.reaped_modifyMember]
    · rw [hpending, Custody.run_cons, hstep]
      rfl

theorem starts_follows : Starts setting Follows where
  toIsPath := Follows.isPath
  start invocation host b := by
    have hspec := start_spec setting invocation host b
    generalize start setting invocation host b = r at hspec
    cases hspec with
    | refused => exact .of_idle (fun e he => idle_of_mem_flushed he) rfl rfl
    | failed =>
      refine .of_idle (fun e he => ?_) rfl rfl
      rcases List.mem_append.mp he with he | he
      · exact idle_of_mem_flushed he
      · cases List.mem_singleton.mp he
        exact ⟨rfl, rfl, rfl⟩
    | @running m outcome p message _ =>
      exact .of_spawn (fun e he => idle_of_mem_flushed he) (fun e he => idle_of_mem_notices he)
        (Block.pids_addMember ..) rfl
  pipe host b := by
    simp only [Action.inBlock, Action.zoom_apply, Machine.pipe_apply]
    split <;> exact .of_idle (List.forall_mem_singleton.mpr ⟨rfl, rfl, rfl⟩) rfl rfl
  close b fd := .of_idle (List.forall_mem_singleton.mpr ⟨rfl, rfl, rfl⟩) rfl rfl

end Group

end LineShell
