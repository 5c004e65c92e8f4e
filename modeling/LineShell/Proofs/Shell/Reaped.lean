/-
  LineShell.Proofs.Shell.Reaped

  Every process started while a line is dispatched is waited for exactly once.

  Numbers may be given again, so all that can be asked of the system is that the
  processes of one group have distinct numbers.

  The observer may fail as it likes when it is told of a start.  Told of an end,
  it may interrupt; were it to fail in another way, the leaving of the group would
  end there.
-/

import LineShell.Proofs.Group.Leaving
import LineShell.Proofs.Shell.Groups

namespace LineShell

/-! ## Accounts of whole runs -/

/-- Where the processes of each group have distinct numbers, every process is held from its
    start on and given back. -/
def Balanced (l : List Event) : Prop := DistinctInGroups l → processes.run ∅ l = some ∅

/-- The observer is told of everything, and every process is given back. -/
def Accounted (l : List Event) : Prop := Announced l ∧ Balanced l

namespace Balanced

variable {l l₁ l₂ : List Event}

theorem append (h₁ : Balanced l₁) (h₂ : Balanced l₂) : Balanced (l₁ ++ l₂) := by
  intro hdistinct
  -- A group of either part is a group of the whole.
  have hfirst := h₁ (hdistinct.of_isInfix (List.prefix_append l₁ l₂).isInfix)
  have hsecond := h₂ (hdistinct.of_isInfix (List.suffix_append l₁ l₂).isInfix)
  exact processes.run_isPath.append hfirst hsecond

theorem isPath : IsPath fun (_ : Machine) l (_ : Machine) => Balanced l where
  nil _ _ := rfl
  append := append

/-- Events that are about no process. -/
theorem of_idle (h : ∀ e ∈ l, processes.Idle e) : Balanced l :=
  fun _ => processes.run_of_idle ∅ h

/-- One group. -/
theorem of_oneGroup (hgroup : OneGroup l)
    (hrun : (processes.acquired l).Nodup → processes.run ∅ l = some ∅) : Balanced l :=
  fun hdistinct => hrun (hdistinct l (List.infix_refl l) hgroup)

end Balanced

namespace Shell

variable {shell : Shell}

/-! ## Every process is given back -/

theorem foreground_balanced {setting : Setting} (hquiet : setting.QuietOnEnds)
    (invocation : Invocation) :
    (Group.foreground setting invocation).Keeps fun _ l _ => Balanced l := by
  intro host m
  refine .of_oneGroup (Group.foreground_oneGroup setting invocation host m) ?_
  -- The block starts its one member first, and only tends it afterwards.
  exact Group.within_balanced hquiet (fun _ hstarts => hstarts.start invocation)
    (fun _ htends position => htends.wait position) host m

theorem pipeline_balanced {setting : Setting} (hquiet : setting.QuietOnEnds)
    (stages : List (List String)) :
    (Pipeline.run setting stages).Keeps fun _ l _ => Balanced l := by
  intro host m
  have hgroup := Pipeline.run_oneGroup setting stages host m
  rw [Pipeline.run] at hgroup ⊢
  cases hstages : stages.mapM Invocation.ofWords with
  | error f => exact Balanced.isPath.nil m
  | ok invocations =>
    rw [hstages] at hgroup
    refine .of_oneGroup hgroup ?_
    exact Group.within_balanced hquiet
      (fun _ h => Pipeline.startStages_keeps h invocations 0 none)
      (fun _ h _ => Pipeline.tendStages_keeps h invocations) host m

theorem redirect_balanced {setting : Setting} (hquiet : setting.QuietOnEnds) (source : String)
    (mode : OpenMode) (target : String) :
    (Redirect.run setting source mode target).Keeps fun _ l _ => Balanced l := by
  have hidle : ∀ {e : Event}, processes.Idle e → Balanced [e] :=
    fun he => .of_idle (List.forall_mem_singleton.mpr he)
  refine Redirect.run_keeps Balanced.isPath ?_ ?_ ?_ ?_ fun _ _ => foreground_balanced hquiet _
  · exact fun _ => hidle ⟨rfl, rfl, rfl⟩
  · exact fun _ => hidle ⟨rfl, rfl, rfl⟩
  · exact fun _ => hidle ⟨rfl, rfl, rfl⟩
  · exact fun _ _ => hidle ⟨rfl, rfl, rfl⟩

theorem obeys_balanced (hquiet : shell.setting.QuietOnEnds) :
    shell.Obeys fun _ l _ => Balanced l := by
  refine .of_plain Balanced.isPath ?_ ?_ (redirect_balanced hquiet) (pipeline_balanced hquiet)
  · rintro m l m' ⟨hplain, -⟩
    refine .of_idle fun e he => ?_
    have hplain := hplain e he
    cases e <;> first | exact ⟨rfl, rfl, rfl⟩ | cases hplain
  · exact fun program args => foreground_balanced hquiet { program, args }

/-! ## The observer is told of everything -/

theorem obeys_announced (hhook : shell.setting.hook.isSome = true) :
    shell.Obeys fun _ l _ => Announced l := by
  have hstarts := Group.starts_announced hhook
  have htends := Group.tends_announced hhook
  have hR : IsPath fun (_ : Machine) l (_ : Machine) => Announced l :=
    ⟨fun _ => .nil, .append⟩
  have hforeground : ∀ invocation,
      (Group.foreground shell.setting invocation).Keeps fun _ l _ => Announced l :=
    Group.foreground_keeps (S := fun _ l _ => Announced l) hstarts htends
  refine .of_plain hR ?_ (fun _ _ => hforeground _) (fun source mode target => ?_)
    fun stages => Pipeline.run_keeps (S := fun _ l _ => Announced l) hstarts htends stages
  · rintro m l m' ⟨hplain, -⟩
    refine .of_forall fun e he => ?_
    have hplain := hplain e he
    cases e <;> first | rfl | cases hplain
  · refine Redirect.run_keeps hR ?_ ?_ ?_ ?_ fun _ _ => hforeground _
    · exact fun _ => .other rfl .nil
    · exact fun _ => .other rfl .nil
    · exact fun _ => .other rfl .nil
    · exact fun _ _ => .other rfl .nil

theorem obeys_accounted (hhook : shell.setting.hook.isSome = true)
    (hquiet : shell.setting.QuietOnEnds) : shell.Obeys fun _ l _ => Accounted l :=
  (obeys_announced hhook).and (obeys_balanced hquiet)

end Shell

/-! ## What accounts say -/

/-- Every process is waited for exactly once, and the observer is told so. -/
structure ReapedOnce (l : List Event) : Prop where
  /-- As many waits as starts that are not interrupted, and as many calls of either kind. -/
  counts : ∀ pid,
    (processes.released l).count pid = (processes.acquired l).count pid ∧
    (toldSpawned l).count pid = (processes.acquired l).count pid ∧
    (toldReaped l).count pid = (processes.acquired l).count pid
  /-- At no point are there more waits than starts, or more than one start ahead. -/
  order : ∀ l₁, l₁ <+: l → ∀ pid,
    (processes.released l₁).count pid ≤ (processes.acquired l₁).count pid ∧
    (processes.acquired l₁).count pid ≤ (processes.released l₁).count pid + 1
  /-- What the observer is told of an end is what the wait just before has collected. -/
  status : ∀ l₁ pid argv status l₂, l = l₁ ++ .hook (.reaped pid argv status) :: l₂ →
    ∃ l₀ source message, l₁ = l₀ ++ [.wait pid (some status), .log source message]
  /-- A wait or a termination is about a process that has not been waited for. -/
  live : ∀ l₁ e l₂ pid, l = l₁ ++ e :: l₂ →
    (e = .terminate pid ∨ ∃ status?, e = .wait pid status?) →
    (processes.acquired l₁).count pid = (processes.released l₁).count pid + 1

theorem Accounted.reapedOnce {l : List Event} (h : Accounted l)
    (hdistinct : DistinctInGroups l) : ReapedOnce l := by
  obtain ⟨hannounced, hrun⟩ := h
  have hrun := hrun hdistinct
  refine ⟨fun pid => ⟨?_, ?_, ?_⟩, fun l₁ hl₁ pid => Custody.count_prefix hrun hl₁ pid,
    fun l₁ pid argv status l₂ hl => hannounced.wait_of_reaped hl, ?_⟩
  · exact Custody.count_released hrun pid
  · rw [hannounced.toldSpawned_eq]
  · rw [hannounced.toldReaped_eq]
    exact Custody.count_released hrun pid
  · intro l₁ e l₂ pid hl he
    apply Custody.count_of_mem hrun hl
    obtain rfl | ⟨_ | status, rfl⟩ := he <;> simp [processes]

/-- Whatever a dispatched line does and however it ends, every process that it has started is
    waited for exactly once, and the observer is told of it. -/
theorem Shell.execute_reaps_once (shell : Shell) (hook : Hook)
    (hhook : shell.setting.hook = some hook)
    (hquiet : ∀ n pid argv status f, hook n (.reaped pid argv status) = some f →
      ∃ message, f = .interrupt message)
    (line : String) (host : Host) (s : Session)
    (hdistinct : DistinctInGroups (shell.execute line host s).events) :
    ReapedOnce (shell.execute line host s).events := by
  have hsome : shell.setting.hook.isSome = true := by rw [hhook]; rfl
  have hends : shell.setting.QuietOnEnds := by
    rintro pid argv status f ⟨hook', n, hhook', hanswer⟩
    rw [hhook] at hhook'
    cases hhook'
    exact hquiet n pid argv status f hanswer
  have haccounted : Accounted (shell.execute line host s).events :=
    (Shell.obeys_accounted hsome hends).execute line host s
  exact haccounted.reapedOnce hdistinct

/-- An observer that refuses the second start it is told of, and interrupts at the first end. -/
def refusingHook : Hook
  | 1, .spawned .. => some (.shell .general "refused")
  | 2, .reaped .. => some (.interrupt "")
  | _, _ => none

/-- A machine on which every start of one program gets the same number, and waits for the
    other are interrupted. -/
def reusingMachine : Machine where
  programs program :=
    if program = "slow" then [.started { interrupts := 2, running := true }]
    else if program = "same" then [.started { pid? := some 7, status := 1 }]
    else []

/-- A pipeline that the observer breaks, and then two processes of a number used in it. -/
theorem execute_reaps_once_refused :
    let r := Shell.execute { setting := { hook := some refusingHook } }
      "slow | same || same || same" {} { machine := reusingMachine }
    processes.acquired r.events = [101, 7, 7, 7] ∧ DistinctInGroups r.events ∧
      ReapedOnce r.events := by
  have hquiet : ∀ n pid argv status f, refusingHook n (.reaped pid argv status) = some f →
      ∃ message, f = .interrupt message := by
    rintro (_ | _ | _ | n) pid argv status f h <;> cases h
    exact ⟨"", rfl⟩
  have hdistinct : DistinctInGroups (Shell.execute { setting := { hook := some refusingHook } }
      "slow | same || same || same" {} { machine := reusingMachine }).events := by decide +kernel
  exact ⟨by decide +kernel, hdistinct,
    Shell.execute_reaps_once _ refusingHook rfl hquiet _ _ _ hdistinct⟩

end LineShell
