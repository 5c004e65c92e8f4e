/-
  LineShell.Proofs.Pipeline.Descriptors

  The descriptors that a pipeline holds.

  Starting the stages holds, before each stage, the read end of the pipe before it
  and nothing else.  Every stage gets ends that are held, and in the end nothing is
  held (`run_descriptors`).
-/

import LineShell.Proofs.Event.Custody
import LineShell.Proofs.Pipeline.Trace
import Mathlib.Data.Finset.Option

namespace LineShell

/-- Whether the event can come of an attempt to start a process. -/
def Event.isAttempt : Event → Bool
  | .out .. | .log .. | .hook _ | .spawn .. | .spawnFailed .. => true
  | _ => false

/-- An attempt to start a process leaves what is held as it is, if what its streams stand for
    is held. -/
theorem Group.Attempt.run_uses {setting : Setting} {invocation : Invocation} {ok : Bool}
    {a : List Event} (h : Group.Attempt setting invocation ok a) {κ : Type} [DecidableEq κ]
    {c : Custody κ} {thing? : Stream → Option κ} {held : Finset κ}
    (huses : ∀ e : Event, c.uses e = e.streams.filterMap thing?)
    (hidle : ∀ e : Event, e.isAttempt = true → c.acquires e = [] ∧ c.releases e = [])
    (hheld : ∀ k ∈ [invocation.stdin, invocation.stdout, invocation.stderr].filterMap thing?,
      k ∈ held) : c.run held a = some held := by
  have hstep : ∀ e : Event, e.isAttempt = true →
      (∀ k ∈ e.streams.filterMap thing?, k ∈ held) → c.step held e = some held := by
    intro e he hstreams
    obtain ⟨hacquires, hreleases⟩ := hidle e he
    exact c.step_of_uses hacquires hreleases (by rwa [huses])
  refine c.run_of_steps (h.forall_mem ?_ ?_ ?_ ?_ ?_)
  · exact fun _ => hstep _ rfl (by simp [Event.streams])
  · exact fun _ => hstep _ rfl (by simp [Event.streams])
  · exact fun _ => hstep _ rfl (by simp [Event.streams])
  · refine hstep _ rfl fun k hk => hheld k ?_
    have hsublist : [invocation.stdin, invocation.stdout].Sublist
        [invocation.stdin, invocation.stdout, invocation.stderr] := by simp
    exact (hsublist.filterMap thing?).subset hk
  · exact fun _ => hstep _ rfl hheld

theorem idle_descriptors {e : Event} (h : e.isAttempt = true) :
    descriptors.acquires e = [] ∧ descriptors.releases e = [] := by
  cases e <;> first | exact ⟨rfl, rfl⟩ | cases h

namespace Pipeline

theorem run_closes (readEnd : Option Descriptor) (held : Finset Descriptor)
    (hheld : ∀ fd, readEnd = some fd → fd ∉ held) (l : List Event) :
    descriptors.run (readEnd.toFinset ∪ held) (closes readEnd ++ l) = descriptors.run held l := by
  cases readEnd with
  | none => simp [closes]
  | some fd =>
    have hfd := hheld fd rfl
    have hstep : descriptors.step ((some fd).toFinset ∪ held) (.close fd) = some held := by
      rw [Custody.step_eq_some_iff]
      refine ⟨?_, ?_⟩
      · simp [Custody.Allows, descriptors, Event.streams]
      · ext other
        by_cases hother : other = fd <;> simp [descriptors, hother, hfd]
    rw [closes, List.singleton_append, Custody.run_cons, hstep, Option.bind_some]

theorem run_pipe {held : Finset Descriptor} {n : Descriptor} (hn : n ∉ held)
    (hn' : n + 1 ∉ held) (l : List Event) :
    descriptors.run held (.pipe n (n + 1) :: l) = descriptors.run (held ∪ {n, n + 1}) l := by
  have hstep : descriptors.step held (.pipe n (n + 1)) = some (held ∪ {n, n + 1}) := by
    rw [Custody.step_eq_some_iff]
    refine ⟨?_, ?_⟩
    · simp [Custody.Allows, descriptors, Event.streams, hn, hn']
    · simp [descriptors]
  rw [Custody.run_cons, hstep, Option.bind_some]

/-- Behind the start of a stage the write end goes, and the read end is left for the next. -/
theorem run_close_writeEnd (n : Descriptor) (l : List Event) :
    descriptors.run {n, n + 1} (.close (n + 1) :: l) = descriptors.run {n} l := by
  have hpair : ({n, n + 1} : Finset Descriptor) = (some (n + 1)).toFinset ∪ {n} := by
    ext fd
    simp [or_comm]
  rw [hpair]
  exact run_closes (some (n + 1)) {n} (by simp) l

/-- Closing all that is in hand. -/
theorem run_closes_self (readEnd : Option Descriptor) :
    descriptors.run readEnd.toFinset (closes readEnd) = some ∅ := by
  have hrun := run_closes readEnd ∅ (by simp) []
  rwa [Finset.union_empty, List.append_nil] at hrun

/-- A stage that is not the last: the pipe behind it is new, the stage is started with both its
    ends in hand, and what is left in hand is the read end of the pipe. -/
theorem run_stage {setting : Setting} {readEnd : Option Descriptor} {n : Int} {stage : Invocation}
    {ok : Bool} {a : List Event} (l : List Event) (hold : ∀ fd : Int, readEnd = some fd → fd < n)
    (hstderr : stage.stderr = .inherited)
    (ha : Group.Attempt setting
      { stage with stdin := streamOf readEnd, stdout := .descriptor (n + 1) } ok a) :
    descriptors.run readEnd.toFinset
        (.pipe n (n + 1) :: (a ++ (closes readEnd ++ .close (n + 1) :: l)))
      = descriptors.run {n} l := by
  -- What is in hand is older than the pipe, so the pipe may be handed out.
  have hnew : ∀ fd : Int, fd ∈ readEnd.toFinset → fd < n := fun fd hfd =>
    hold fd (Option.mem_toFinset.mp hfd)
  have hn : n ∉ readEnd.toFinset := fun hmem => by
    have hlt := hnew n hmem
    omega
  have hn' : n + 1 ∉ readEnd.toFinset := fun hmem => by
    have hlt := hnew (n + 1) hmem
    omega
  have hattempt : descriptors.run (readEnd.toFinset ∪ {n, n + 1}) a
      = some (readEnd.toFinset ∪ {n, n + 1}) := by
    refine ha.run_uses (fun _ => rfl) (fun e he => idle_descriptors he) fun fd hfd => ?_
    obtain ⟨stream, hstream, hfd⟩ := List.mem_filterMap.mp hfd
    simp only [hstderr, List.mem_cons, List.not_mem_nil, or_false] at hstream
    rcases hstream with rfl | rfl | rfl
    · cases readEnd <;> simp_all [streamOf, Stream.descriptor?]
    · cases hfd
      simp
    · cases hfd
  have hother : ∀ fd : Int, readEnd = some fd → fd ∉ ({n, n + 1} : Finset Int) := by
    intro fd hfd
    have hlt := hold fd hfd
    rw [Finset.mem_insert, Finset.mem_singleton]
    omega
  rw [run_pipe hn hn', Custody.run_append, hattempt, Option.bind_some, run_closes _ _ hother,
    run_close_writeEnd]

/-- Starting stages with the read end of a pipe in hand ends with nothing in hand. -/
theorem StartTrace.run_descriptors {setting : Setting} {readEnd : Option Descriptor} {n : Int}
    {stages : List Invocation} {ok : Bool} {l : List Event}
    (h : StartTrace setting readEnd n stages ok l)
    (hstderr : ∀ i ∈ stages, i.stderr = .inherited)
    (hold : ∀ fd : Int, readEnd = some fd → fd < n) :
    descriptors.run readEnd.toFinset l = some ∅ := by
  induction h with
  | @done readEnd => exact run_closes_self readEnd
  | @noPipe readEnd =>
    have hstep : descriptors.step readEnd.toFinset .pipeFailed = some readEnd.toFinset :=
      descriptors.step_of_uses rfl rfl (by simp [descriptors, Event.streams])
    rw [Custody.run_cons, hstep]
    exact run_closes_self readEnd
  | @last readEnd n stage ok a ha =>
    have hattempt : descriptors.run readEnd.toFinset a = some readEnd.toFinset := by
      refine ha.run_uses (fun _ => rfl) (fun e he => idle_descriptors he) fun fd hfd => ?_
      rw [hstderr stage List.mem_cons_self] at hfd
      cases readEnd <;> simp_all [streamOf, Stream.descriptor?]
    rw [Custody.run_append, hattempt]
    exact run_closes_self readEnd
  | @stopped readEnd n stage rest a _ ha =>
    rw [run_stage [.close n] hold (hstderr stage List.mem_cons_self) ha]
    exact run_closes_self (some n)
  | @started readEnd n stage rest a l ok _ ha _ ih =>
    rw [run_stage l hold (hstderr stage List.mem_cons_self) ha]
    apply ih fun i hi => hstderr i (List.mem_cons_of_mem stage hi)
    rintro fd ⟨⟩
    omega

end Pipeline

end LineShell
