/-
  LineShell.Proofs.Pipeline.Wired

  Pipelines all of whose stages are started.

  Each stage reads from the pipe before it and writes into the one behind itself;
  the first reads what the shell reads, and the last writes where the shell
  writes.  All stages are started before any is waited for, all are waited for
  once and in order, and the first whose status is not zero is the one that is
  reported (`run_wired`).
-/

import LineShell.Proofs.Pipeline.Connected

namespace LineShell.Pipeline

variable {setting : Setting} {host : Host} {m : Machine} {b : Block} {stages : List (List String)}
  {ps : List Process} {index : Nat}

/-! ## Waiting for the stages -/

/-- The failure that the first of the processes comes to whose status is not zero, counted from
    the given position on. -/
def firstFailure? : (index : Nat) → List Process → Option Failure
  | _, [] => none
  | index, p :: ps => (p.verdict?.map (.stage index)).or (firstFailure? (index + 1) ps)

/-- A wait that is not interrupted, before the others: its failure counts if there was none
    before it. -/
theorem waitStages_cons_apply (host : Host) (hsilent : setting.Silent) {i : Nat} {p : Process}
    (hp : b.member? i = some p) (hlive : p.pid ∉ b.group.reaped) (hnamed : p.args ≠ [])
    (hinterrupts : p.interrupts = 0) (first : Option Failure) (positions : List Nat) :
    waitStages setting first (i :: positions) host b =
      (waitStages setting (first.or (p.verdict?.map (.stage i))) positions host
        ((({ b with machine := setting.told b.machine } : Block).modifyMember i
          Process.ended).markReaped p.pid)).after
      (.wait p.pid (some p.status) ::
        .log .process s!"reaped pid {p.pid} (status {p.status})" ::
          setting.notices (.reaped p.pid p.args p.status)) := by
  have hwait := Group.wait_of_uninterrupted host hsilent hp hlive hnamed hinterrupts
  simp only [waitStages, Action.bind_apply, Action.attempt_apply, hwait, Result.andThen_ok]
  by_cases hstatus : p.status = 0
  · have hverdict : p.verdict? = none := if_pos hstatus
    simp only [hverdict, Option.elim_none, Option.map_none, Option.or_none]
  · obtain ⟨program, args, hargs⟩ := List.exists_cons_of_ne_nil hnamed
    have hverdict : p.verdict? = some (.exitStatus program p.status) := by
      simp [Process.verdict?, hstatus, Process.program?, hargs]
    simp only [hverdict, Option.elim_some, Option.map_some]
    cases first <;> rfl

/-- The members have all been waited for, once and in order. -/
structure Collected (ps : List Process) (index : Nat) (first : Option Failure) (b : Block)
    (r : Result Block (Option Failure)) : Prop where
  outcome : r.outcome = .ok (first.or (firstFailure? index ps))
  pids : r.state.pids = b.pids
  reaped : r.state.group.reaped = b.group.reaped ++ ps.map Process.pid
  waits : r.events.filter Event.isReaping = ps.map fun p => .wait p.pid (some p.status)

/-- Waits that are not interrupted for the members behind the first ones. -/
theorem waitStages_collected (host : Host) (hsilent : setting.Silent) (done : List Process)
    (hmembers : b.group.members = done ++ ps) (hdistinct : (ps.map Process.pid).Nodup)
    (hlive : ∀ p ∈ ps, p.pid ∉ b.group.reaped) (hnamed : ∀ p ∈ ps, p.args ≠ [])
    (hinterrupts : ∀ p ∈ ps, p.interrupts = 0) (first : Option Failure) :
    Collected ps done.length first b
      (waitStages setting first (List.range' done.length ps.length) host b) := by
  induction ps generalizing done b first with
  | nil =>
    refine ⟨?_, rfl, ?_, rfl⟩
    · simp [waitStages, firstFailure?]
    · simp [waitStages]
  | cons p rest ih =>
    obtain ⟨hfirst, hrest⟩ := List.forall_mem_cons.mp hlive
    obtain ⟨hfirstNamed, hrestNamed⟩ := List.forall_mem_cons.mp hnamed
    obtain ⟨hfirstInterrupts, hrestInterrupts⟩ := List.forall_mem_cons.mp hinterrupts
    obtain ⟨hfresh, hdistinct⟩ := List.nodup_cons.mp hdistinct
    have hp : b.member? done.length = some p := by
      rw [Block.member?, hmembers, List.getElem?_append_right (Nat.le_refl _), Nat.sub_self]
      rfl
    rw [List.length_cons, List.range'_succ,
      waitStages_cons_apply host hsilent hp hfirst hfirstNamed hfirstInterrupts]
    generalize hb' : (({ b with machine := setting.told b.machine } : Block).modifyMember
      done.length Process.ended).markReaped p.pid = b'
    -- The member that has been waited for joins those before it.
    have hmembers' : b'.group.members = (done ++ [p.ended]) ++ rest := by
      rw [← hb']
      show b.group.members.modify done.length Process.ended = _
      rw [hmembers, List.modify_eq_take_cons_drop (by simp)]
      simp
    have hreaped' : b'.group.reaped = b.group.reaped ++ [p.pid] := by
      rw [← hb']
      rfl
    have hlive' : ∀ q ∈ rest, q.pid ∉ b'.group.reaped := by
      intro q hq hmem
      rw [hreaped', List.mem_append, List.mem_singleton] at hmem
      rcases hmem with hmem | hpid
      · exact hrest q hq hmem
      · exact hfresh (hpid ▸ List.mem_map_of_mem hq)
    have hpids' : b'.pids = b.pids := by
      rw [← hb', Block.pids_markReaped, Block.pids_ended]
      rfl
    have hlater := ih (done ++ [p.ended]) hmembers' hdistinct hlive' hrestNamed hrestInterrupts
      (first.or (p.verdict?.map (.stage done.length)))
    rw [List.length_append, List.length_singleton] at hlater
    refine ⟨?_, hlater.pids.trans hpids', ?_, ?_⟩
    · rw [Result.outcome_after, hlater.outcome, Option.or_assoc]
      rfl
    · rw [Result.state_after, hlater.reaped, hreaped', List.append_assoc]
      rfl
    · have hnotices : ∀ e ∈ setting.notices (.reaped p.pid p.args p.status),
          ¬ e.isReaping = true := by
        intro e he
        rw [Setting.mem_notices he]
        exact Bool.false_ne_true
      rw [Result.events_after, List.filter_append, List.filter_cons_of_pos rfl,
        List.filter_cons_of_neg Bool.false_ne_true, List.filter_eq_nil_iff.mpr hnotices,
        hlater.waits]
      rfl

/-! ## Whole pipelines -/

/-- The first failure is that of the first process whose status is not zero. -/
theorem firstFailure?_eq_none_iff (hnamed : ∀ p ∈ ps, p.args ≠ []) :
    firstFailure? index ps = none ↔ ∀ p ∈ ps, p.status = 0 := by
  induction ps generalizing index with
  | nil => simp [firstFailure?]
  | cons p rest ih =>
    obtain ⟨hfirst, hrest⟩ := List.forall_mem_cons.mp hnamed
    obtain ⟨program, args, hargs⟩ := List.exists_cons_of_ne_nil hfirst
    have hverdict : p.verdict? = none ↔ p.status = 0 := by
      by_cases hstatus : p.status = 0 <;>
        simp [Process.verdict?, hstatus, Process.program?, hargs]
    rw [firstFailure?, Option.or_eq_none_iff, Option.map_eq_none_iff, hverdict, ih hrest,
      List.forall_mem_cons]

theorem firstFailure?_eq_some {k : Nat} {p : Process} {program : String} {args : List String}
    (hp : ps[k]? = some p) (hargs : p.args = program :: args) (hstatus : p.status ≠ 0)
    (hleast : ∀ j < k, ∀ q, ps[j]? = some q → q.status = 0) :
    firstFailure? index ps = some (.stage (index + k : Nat) (.exitStatus program p.status)) := by
  induction ps generalizing index k with
  | nil => cases hp
  | cons first rest ih =>
    cases k with
    | zero =>
      cases hp
      simp [firstFailure?, Process.verdict?, hstatus, Process.program?, hargs]
    | succ k =>
      have hfirst : first.verdict? = none := if_pos (hleast 0 (Nat.succ_pos k) first rfl)
      have hlater : firstFailure? (index + 1) rest
          = some (.stage (index + 1 + k : Nat) (.exitStatus program p.status)) :=
        ih hp fun j hj q hq => hleast (j + 1) (Nat.succ_lt_succ hj) q hq
      rw [firstFailure?, hfirst, Option.map_none, Option.none_or, hlater, Nat.add_assoc,
        Nat.add_comm 1 k]

/-- What a pipeline comes to all of whose stages are started, as the given processes. -/
structure Wired (setting : Setting) (stages : List (List String)) (ps : List Process)
    (r : Result Machine Unit) : Prop where
  /-- There is a pipe between any two stages, and no other one is asked for. -/
  pipes : (pipes r.events).length = stages.length - 1
  granted : .pipeFailed ∉ r.events
  /-- The starts are those of the stages, each connected to its pipes. -/
  launches : r.events.filter Event.isLaunch
    = wiring setting none (Pipeline.pipes r.events) stages ps
  /-- Nobody is waited for before the last start. -/
  order : ∃ starts behind, r.events = starts ++ behind ∧ (∀ e ∈ starts, e.isReaping = false) ∧
    ∀ e ∈ behind, e.isLaunch = false
  /-- Each process is waited for once, and none is terminated. -/
  waits : r.events.filter Event.isReaping = ps.map fun p => .wait p.pid (some p.status)
  passes : r.outcome = .ok () ↔ ∀ p ∈ ps, p.status = 0
  /-- The first process whose status is not zero is the one that is reported. -/
  fails : ∀ (k : Nat) (p : Process), ps[k]? = some p → p.status ≠ 0 →
    (∀ j < k, ∀ q, ps[j]? = some q → q.status = 0) →
    ∃ program args, stages[k]? = some (program :: args) ∧
      r.outcome = .error (.stage k (.exitStatus program p.status))

/-- After all stages have been started, all of them are waited for. -/
theorem tendStages_of_uninterrupted (host : Host) (hsilent : setting.Silent)
    {invocations : List Invocation} (hgroup : b.group = { members := ps })
    (hlength : invocations.length = ps.length) (hdistinct : (ps.map Process.pid).Nodup)
    (hnamed : ∀ p ∈ ps, p.args ≠ []) (hinterrupts : ∀ p ∈ ps, p.interrupts = 0) :
    ∃ b' message waits, tendStages setting invocations host b =
        ⟨(firstFailure? 0 ps).elim (.ok ()) .error, b', .log .pipeline message :: waits⟩ ∧
      (∀ i p, b'.member? i = some p → p.pid ∈ b'.group.reaped) ∧
      (waits.filter Event.isReaping = ps.map fun p => .wait p.pid (some p.status)) ∧
      ∀ e ∈ waits, e.isTending = true := by
  have hpositions : List.range invocations.length = List.range' 0 ps.length := by
    rw [hlength]
    exact List.range_eq_range'
  have hmembers : b.group.members = [] ++ ps := by
    rw [hgroup]
    rfl
  have hlive : ∀ p ∈ ps, p.pid ∉ b.group.reaped := by
    rw [hgroup]
    exact fun _ _ => List.not_mem_nil
  have hcollected : Collected ps 0 none b _ :=
    waitStages_collected host hsilent [] hmembers hdistinct hlive hnamed hinterrupts none
  have htending := waitStages_keeps (Group.tends_isTending setting) (List.range' 0 ps.length)
    none host b
  simp only [tendStages, hpositions, Action.bind_apply, Action.log_apply, Result.andThen_ok]
  rw [List.length_nil] at hcollected
  generalize waitStages setting none (List.range' 0 ps.length) host b = waited
    at hcollected htending
  obtain ⟨outcome, b', waits⟩ := waited
  obtain rfl : outcome = .ok (firstFailure? 0 ps) := hcollected.outcome
  refine ⟨b', s!"pipeline started {invocations.length} stage(s)", waits, ?_, fun i p hp => ?_,
    hcollected.waits, htending⟩
  · cases firstFailure? 0 ps <;> simp
  -- Whoever has been started has been waited for.
  · have hmem := Block.mem_pids_of_member? hp
    have hpids : b'.pids = ps.map Process.pid := by
      rw [hcollected.pids, Block.pids, hgroup]
    have hreaped : b'.group.reaped = ps.map Process.pid := by
      rw [hcollected.reaped, hgroup]
      rfl
    rwa [hreaped, ← hpids]

/-- All stages are started, then all of them are waited for, and nothing is left to do. -/
theorem run_of_granted (hsilent : setting.Silent)
    (hpipes : ∀ i, i + 1 < stages.length → host.pipeFailures (m.pipeCalls + i) = none)
    (hstarts : Granted setting host m stages ps) (hnamed : ∀ p ∈ ps, p.args ≠ [])
    (hdistinct : (ps.map Process.pid).Nodup) (hinterrupts : ∀ p ∈ ps, p.interrupts = 0) :
    ∃ invocations m' message waits,
      let started := startStages setting 0 none invocations host { machine := m }
      run setting stages host m = ⟨(firstFailure? 0 ps).elim (.ok ()) .error, m',
        started.events ++ .log .pipeline message :: waits⟩ ∧
      Connected setting none stages ps { machine := m } started ∧
      waits.filter Event.isReaping = (ps.map fun p => .wait p.pid (some p.status)) ∧
      ∀ e ∈ waits, e.isTending = true := by
  obtain ⟨invocations, hstages, hlength, hstarted⟩ := hstarts.mapM_ofWords
  have hconnected := hstarts.connected hsilent hstages 0 none { machine := m } ⟨rfl, rfl⟩ hpipes
  refine ⟨invocations, ?_⟩
  rw [run_of_mapM_ofWords hstages, Group.closing_apply, runStages_eq_tendStages, Action.bind_apply]
  generalize startStages setting 0 none invocations host { machine := m } = started at hconnected
  obtain ⟨outcome, b, l⟩ := started
  obtain rfl : outcome = .ok () := hconnected.outcome
  obtain ⟨b', message, waits, htend, hreaped, hwaits, htending⟩ := tendStages_of_uninterrupted host
    hsilent hconnected.group (hlength.trans hstarted.symm) hdistinct hnamed hinterrupts
  rw [Result.andThen_ok, htend]
  refine ⟨b'.machine, message, waits, ?_, hconnected, hwaits, htending⟩
  simp only [Result.after_mk, Group.leave_of_reaped _ hreaped, List.append_nil]
  rfl

/-- A pipeline whose stages are all started is wired stage by stage, and judged by the first
    status that is not zero. -/
theorem run_wired (hsilent : setting.Silent)
    (hpipes : ∀ i, i + 1 < stages.length → host.pipeFailures (m.pipeCalls + i) = none)
    (hstarts : Granted setting host m stages ps) (hargs : ps.map Process.args = stages)
    (hdistinct : (ps.map Process.pid).Nodup) (hinterrupts : ∀ p ∈ ps, p.interrupts = 0) :
    Wired setting stages ps (run setting stages host m) := by
  have hnamed : ∀ p ∈ ps, p.args ≠ [] := by
    intro p hp
    apply hstarts.ne_nil
    rw [← hargs]
    exact List.mem_map_of_mem hp
  obtain ⟨invocations, m', message, waits, hrun, hconnected, hwaits, htending⟩ :=
    run_of_granted hsilent hpipes hstarts hnamed hdistinct hinterrupts
  have hstarting := startStages_spec setting invocations 0 none host { machine := m }
  generalize startStages setting 0 none invocations host { machine := m } = started
    at hrun hconnected hstarting
  have hbehind : ∀ e ∈ Event.log .pipeline message :: waits, e.isTending = true :=
    List.forall_mem_cons.mpr ⟨rfl, htending⟩
  have hnoLaunch : ∀ e ∈ Event.log .pipeline message :: waits, e.isLaunch = false := by
    intro e he
    have hkind := hbehind e he
    cases e <;> first | rfl | cases hkind
  have hpipesRun : pipes (run setting stages host m).events = pipes started.events := by
    rw [hrun, pipes_append, (abandoned_of_tending hbehind).2, List.append_nil]
  refine ⟨?_, ?_, ?_, ⟨started.events, _, by rw [hrun], hstarting.not_isReaping, hnoLaunch⟩, ?_, ?_,
    ?_⟩
  · rw [hpipesRun]
    exact hconnected.pipes
  · rw [hrun, List.mem_append, not_or]
    refine ⟨hconnected.granted, fun hmem => ?_⟩
    cases hbehind _ hmem
  · have hnone : ∀ e ∈ Event.log .pipeline message :: waits, ¬ e.isLaunch = true := by
      intro e he
      rw [hnoLaunch e he]
      exact Bool.false_ne_true
    rw [hpipesRun, hrun, List.filter_append, List.filter_eq_nil_iff.mpr hnone, List.append_nil]
    exact hconnected.launches
  · have hnone : ∀ e ∈ started.events, ¬ e.isReaping = true := by
      intro e he
      rw [hstarting.not_isReaping e he]
      exact Bool.false_ne_true
    rw [hrun, List.filter_append, List.filter_eq_nil_iff.mpr hnone, List.nil_append,
      List.filter_cons_of_neg Bool.false_ne_true]
    exact hwaits
  · rw [hrun, ← firstFailure?_eq_none_iff hnamed]
    cases firstFailure? 0 ps <;> simp
  · intro k p hp hstatus hleast
    have hstage : stages[k]? = some p.args := by
      rw [← hargs, List.getElem?_map, hp]
      rfl
    obtain ⟨program, args, hprogram⟩ :=
      List.exists_cons_of_ne_nil (hnamed p (List.mem_of_getElem? hp))
    refine ⟨program, args, hprogram ▸ hstage, ?_⟩
    rw [hrun, firstFailure?_eq_some hp hprogram hstatus hleast, Nat.zero_add]
    rfl

/-- Three stages, the second and the third of which fail. -/
theorem run_wired_failing :
    let m : Machine := { programs := fun name =>
      if name = "b" then [.started { status := 3 }]
      else if name = "c" then [.started { status := -9 }]
      else [.started {}] }
    let stages := [["a", "x"], ["b"], ["c", "y", "z"]]
    let ps : List Process := [.ofScript {} 101 ["a", "x"], .ofScript { status := 3 } 102 ["b"],
      .ofScript { status := -9 } 103 ["c", "y", "z"]]
    Setting.Silent {} ∧
      (∀ i, i + 1 < stages.length → ({} : Host).pipeFailures (m.pipeCalls + i) = none) ∧
      Granted {} {} m stages ps ∧ ps.map Process.args = stages ∧
      (ps.map Process.pid).Nodup ∧ (∀ p ∈ ps, p.interrupts = 0) ∧
      Wired {} stages ps (run {} stages {} m) ∧
      (run {} stages {} m).outcome = .error (.stage 1 (.exitStatus "b" 3)) := by
  intro m stages ps
  have hsilent : Setting.Silent {} := fun _ h => nomatch h
  have hpipes : ∀ i, i + 1 < stages.length → ({} : Host).pipeFailures (m.pipeCalls + i) = none :=
    fun _ _ => rfl
  have hstarts : Granted {} {} m stages ps := .cons rfl (.cons rfl (.cons rfl (.nil _)))
  have hdistinct : (ps.map Process.pid).Nodup := by decide
  have hinterrupts : ∀ p ∈ ps, p.interrupts = 0 := by decide
  exact ⟨hsilent, hpipes, hstarts, rfl, hdistinct, hinterrupts,
    run_wired hsilent hpipes hstarts rfl hdistinct hinterrupts, by decide +kernel⟩

end LineShell.Pipeline
