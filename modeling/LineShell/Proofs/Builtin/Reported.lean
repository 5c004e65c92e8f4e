/-
  LineShell.Proofs.Builtin.Reported

  The failures of the built-in commands.

  Changing the directory and sending a signal claim what the system refuses, and
  writing cannot fail.  Two failures are not claimed: that of asking for the
  working directory (`runPwd_failure`), and a process number that is too large
  (`runKill_failure`).
-/

import LineShell.Builtin
import LineShell.Proofs.Group.Reported
import LineShell.Proofs.Machine.Calm

namespace LineShell

variable {setting : Setting} {host : Host} {m : Machine} {f : Failure}

/-! ## The calls -/

namespace Machine

/-- A change of directory is refused for a null character, or because the directory is not
    there, or fails as the host says. -/
theorem changeDirectory_failure {path : String}
    (hf : (changeDirectory path host m).outcome = .error f) :
    (hasNull path = true ∧ f = .embeddedNull) ∨ f = .noSuchFile ∨
      host.directories path = some (.error f) := by
  rw [changeDirectory_apply] at hf
  by_cases hnull : hasNull path = true
  · rw [if_pos hnull] at hf
    cases hf
    exact .inl ⟨hnull, rfl⟩
  · rw [if_neg hnull] at hf
    cases hanswer : host.directories path with
    | none =>
      rw [hanswer] at hf
      cases hf
      exact .inr (.inl rfl)
    | some answer =>
      rw [hanswer] at hf
      cases answer with
      | ok cwd => cases hf
      | error f' =>
        cases hf
        exact .inr (.inr rfl)

/-- A signal fails for a number that is too large, or because the process is not there, or as
    the host says. -/
theorem kill_failure {pid signum : Int} (hf : (kill pid signum host m).outcome = .error f) :
    pidOverflow? pid = some f ∨ f = .noSuchProcess ∨ host.targets pid = some (some f) := by
  rw [kill_apply] at hf
  cases hoverflow : pidOverflow? pid with
  | some f' =>
    rw [hoverflow] at hf
    cases hf
    exact .inl rfl
  | none =>
    rw [hoverflow] at hf
    cases hanswer : host.targets pid with
    | none =>
      rw [hanswer] at hf
      cases hf
      exact .inr (.inl rfl)
    | some answer =>
      rw [hanswer] at hf
      cases answer with
      | none => cases hf
      | some f' =>
        cases hf
        exact .inr (.inr rfl)

/-- A directory that is not there is a failure of the system, too. -/
theorem isSystem_of_changeDirectory {path : String}
    (hdirectories : ∀ path f, host.directories path = some (.error f) → f.isSystem = true)
    (hnull : hasNull path = false) (hf : (changeDirectory path host m).outcome = .error f) :
    f.isSystem = true := by
  rcases changeDirectory_failure hf with ⟨h, -⟩ | rfl | hanswer
  · rw [hnull] at h
    cases h
  · rfl
  · exact hdirectories path f hanswer

/-- So is a process that is not there. -/
theorem isSystem_of_kill {pid signum : Int}
    (htargets : ∀ pid f, host.targets pid = some (some f) → f.isSystem = true)
    (hf : (kill pid signum host m).outcome = .error f) :
    pidOverflow? pid = some f ∨ f.isSystem = true := by
  rcases kill_failure hf with hoverflow | rfl | hanswer
  · exact .inl hoverflow
  · exact .inr rfl
  · exact .inr (htargets pid f hanswer)

end Machine

/-! ## The commands -/

namespace Builtin

/-- Writing does not fail. -/
theorem outcome_writeLine (setting : Setting) (text : String) (host : Host) (m : Machine) :
    (setting.writeLine text host m).outcome = .ok () := by
  rw [Setting.writeLine_apply]

/-- The working directory is the one thing that can fail, and its failure is not claimed. -/
theorem runPwd_failure (hf : (runPwd setting host m).outcome = .error f) :
    host.cwdFailure = some f := by
  rcases Action.outcome_bind_eq_error.mp hf with hcall | ⟨cwd, -, hwrite⟩
  · rw [Machine.workingDirectory_apply] at hcall
    cases hcwd : host.cwdFailure with
    | some f' =>
      rw [hcwd] at hcall
      cases hcall
      rfl
    | none =>
      rw [hcwd] at hcall
      cases hcall
  · cases (outcome_writeLine setting cwd host _).symm.trans hwrite

/-- Where there is a directory to change to, it holds no null character. -/
theorem hasNull_of_cdTarget {env : Environment} {args : List String} {target : String}
    (hnull : ∀ arg ∈ args, Machine.hasNull arg = false)
    (hhome : ∀ home, env.lookup "HOME" = some home → Machine.hasNull home = false)
    (h : cdTarget env args = .ok target) : Machine.hasNull target = false := by
  cases args with
  | cons arg rest =>
    cases h
    exact hnull target List.mem_cons_self
  | nil =>
    rw [cdTarget] at h
    split at h
    · cases h
    · cases h
    · next home _ hlookup =>
      cases h
      exact hhome target hlookup

/-- The one reason to have no directory to change to. -/
theorem eq_noHome_of_cdTarget {env : Environment} {args : List String}
    (h : cdTarget env args = .error f) : f = noHome := by
  cases args with
  | cons arg rest => cases h
  | nil =>
    rw [cdTarget] at h
    split at h <;> cases h <;> rfl

theorem runCd_reported {args : List String}
    (hdirectories : ∀ path f, host.directories path = some (.error f) → f.isSystem = true)
    (hnull : ∀ arg ∈ args, Machine.hasNull arg = false)
    (hhome : ∀ home, (setting.visible host).lookup "HOME" = some home →
      Machine.hasNull home = false)
    (hf : (runCd setting args host m).outcome = .error f) : f.isReported = true := by
  simp only [runCd, Action.bind_apply Action.host, Action.host_apply, Result.andThen_ok,
    Result.after_nil] at hf
  rcases Action.outcome_bind_eq_error.mp hf with htarget | ⟨target, htarget, hcall⟩
  · rw [Action.ofExcept_apply] at htarget
    rw [eq_noHome_of_cdTarget htarget]
    rfl
  · rw [Action.ofExcept_apply] at htarget
    obtain ⟨f', hf', rfl⟩ := Action.mapError_eq_error.mp hcall
    have hclean := hasNull_of_cdTarget hnull hhome htarget
    have hsystem := Machine.isSystem_of_changeDirectory hdirectories hclean hf'
    exact Failure.isReported_of_isShell (Failure.isShell_claimedFor hsystem .directory _)

/-- Text that is no process number is a wrong argument. -/
theorem of_killTarget {args : List String} (h : killTarget args = .error f) :
    ∃ message, f = .shell .argument message := by
  cases args with
  | nil =>
    cases h
    exact ⟨_, rfl⟩
  | cons text rest =>
    rw [killTarget] at h
    split at h
    · cases h
      exact ⟨_, rfl⟩
    · split at h
      · cases h
        exact ⟨_, rfl⟩
      · cases h

/-- What the system refuses is reported as a failure of the command, for the process that the
    signal was meant for. -/
theorem killFailure_of_isSystem (h : f.isSystem = true) (pid : Int) :
    ∃ reason : String, killFailure pid f = .shell .process s!"kill: ({pid}) {reason}" := by
  cases f with
  | system errno reason =>
    rw [killFailure]
    split
    · refine ⟨"no such process", ?_⟩
      simp only [String.append_assoc]
      rfl
    · exact ⟨_, rfl⟩
  | systemText message => exact ⟨message, rfl⟩
  | _ => cases h

theorem isShell_killFailure (h : f.isSystem = true) (pid : Int) :
    (killFailure pid f).isShell = true := by
  obtain ⟨reason, hreason⟩ := killFailure_of_isSystem h pid
  rw [hreason]
  rfl

/-- A number that is too large for a process is no failure of the system. -/
theorem of_pidOverflow? {pid : Int} (h : Machine.pidOverflow? pid = some f) :
    ∃ message, f = .fault .overflow message := by
  unfold Machine.pidOverflow? at h
  split at h
  · cases h
  · split at h <;>
    · cases h
      exact ⟨_, rfl⟩

/-- Besides failures of the shell, the number may be too large, which is not claimed. -/
theorem runKill_failure {args : List String}
    (htargets : ∀ pid f, host.targets pid = some (some f) → f.isSystem = true)
    (hf : (runKill args host m).outcome = .error f) :
    f.isReported = true ∨
      ∃ pid, killTarget args = .ok pid ∧ Machine.pidOverflow? pid = some f := by
  rcases Action.outcome_bind_eq_error.mp hf with htarget | ⟨pid, htarget, hrest⟩
  · rw [Action.ofExcept_apply] at htarget
    obtain ⟨message, rfl⟩ := of_killTarget htarget
    exact .inl rfl
  · rw [Action.ofExcept_apply] at htarget hrest
    rcases Action.outcome_bind_eq_error.mp hrest with hcall | ⟨-, -, hlog⟩
    · obtain ⟨f', hf', rfl⟩ := Action.mapError_eq_error.mp hcall
      rcases Machine.isSystem_of_kill htargets hf' with hoverflow | hsystem
      -- What is no failure of the system is not claimed.
      · obtain ⟨message, rfl⟩ := of_pidOverflow? hoverflow
        exact .inr ⟨pid, htarget, hoverflow⟩
      · exact .inl (Failure.isReported_of_isShell (isShell_killFailure hsystem pid))
    · cases hlog

end Builtin

end LineShell
