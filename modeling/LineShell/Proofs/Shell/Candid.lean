/-
  LineShell.Proofs.Shell.Candid

  Failures that say what has happened.

  The status of a line is that of its failure, so that it tells the truth only if
  the failure does not mislead.  No part of the shell makes a misleading failure:
  a wait makes none of a status of zero, and the cause of a stage is a failure of a
  program, of a start or of a call for a pipe.  So what comes out of a command, a
  redirect or a pipeline does not mislead, if what comes out of the calls does not
  (`leaf_misleads`).
-/

import LineShell.Proofs.Shell.Reported

namespace LineShell

/-- No call fails in a misleading way, starts and calls for a pipe aside, and a handler that is
    not put in place is no failure of the shell. -/
structure Host.Candid (host : Host) : Prop where
  directories : ∀ path f, host.directories path = some (.error f) → f.misleads = false
  cwd : ∀ f, host.cwdFailure = some f → f.misleads = false
  opens : ∀ path f, host.openFailures path = some f → f.misleads = false
  targets : ∀ pid f, host.targets pid = some (some f) → f.misleads = false
  installs : ∀ n f, host.installFailures n = some f → f.isShell = false

variable {setting : Setting} {host : Host} {b : Block} {m : Machine} {f : Failure}

namespace Group

/-! ## Processes -/

theorem start_misleads (hsilent : setting.Silent) (hsound : b.machine.Sound)
    {invocation : Invocation} (hf : (start setting invocation host b).outcome = .error f) :
    f.misleads = false := by
  have hspec := start_spec setting invocation host b
  generalize start setting invocation host b = r at hspec hf
  cases hspec with
  | refused =>
    cases hf
    rfl
  | failed hoffers _ =>
    cases hf
    have hsystem : Failure.isSystem _ = true := hsound.of_offers hoffers
    exact Failure.misleads_claimedFor (Failure.misleads_of_isSystem hsystem) _ _
  | running outcome _ _ _ _ _ houtcome =>
    rcases houtcome with rfl | ⟨f', -, hanswer⟩
    · cases hf
    · exact absurd hanswer hsilent.not_answers

/-- A program that has ended with success is no failure. -/
theorem wait_misleads (hsilent : setting.Silent) {i : Nat}
    (hf : (wait setting i host b).outcome = .error f) : f.misleads = false := by
  rcases wait_failure hsilent hf with rfl | rfl | rfl | ⟨program, status, hstatus, rfl⟩
  · rfl
  · rfl
  · rfl
  · exact decide_eq_false hstatus

theorem foreground_misleads (hsilent : setting.Silent) (hsound : m.Sound)
    {invocation : Invocation} (hf : (foreground setting invocation host m).outcome = .error f) :
    f.misleads = false := by
  have hblock : ((start setting invocation >>= wait setting) host { machine := m }).outcome
      = .error f := by
    rw [foreground_eq_of_silent hsilent] at hf
    exact hf
  rcases Action.outcome_bind_eq_error.mp hblock with hstart | ⟨position, -, hwait⟩
  · exact start_misleads hsilent (b := { machine := m }) hsound hstart
  · exact wait_misleads hsilent hwait

end Group

/-! ## Pipelines -/

namespace Pipeline

theorem connect_misleads (hpipes : ∀ n f, host.pipeFailures n = some f → f.isSystem = true)
    {index : Nat} {readEnd : Option Descriptor} {last : Bool}
    (hf : (connect index readEnd last host b).outcome = .error f) : f.misleads = false := by
  cases last with
  | true => cases hf
  | false =>
    rw [connect_apply] at hf
    cases hfailure : host.pipeFailures b.machine.pipeCalls with
    | none =>
      rw [hfailure] at hf
      cases hf
    | some f' =>
      have hsystem : f'.systemReason?.isSome = true := hpipes _ f' hfailure
      simp only [hfailure, hsystem, if_true] at hf
      cases hf
      cases f' <;> first | rfl | cases hsystem

theorem startFailure_misleads (h : f.misleads = false) (index : Nat) :
    (startFailure index f).misleads = false := by
  unfold startFailure
  split
  · rfl
  · exact h

theorem startStages_misleads (hsilent : setting.Silent)
    (hpipes : ∀ n f, host.pipeFailures n = some f → f.isSystem = true) {stages : List Invocation}
    {index : Nat} {readEnd : Option Descriptor} (hsound : b.machine.Sound)
    (hf : (startStages setting index readEnd stages host b).outcome = .error f) :
    f.misleads = false := by
  induction stages generalizing index readEnd b with
  | nil =>
    rw [startStages, closeEnd_apply] at hf
    cases hf
  | cons stage rest ih =>
    have hspends := Group.starts_spends setting
    rw [startStages_cons] at hf
    rcases Action.outcome_bind_eq_error.mp hf with hconnect | ⟨ends, -, hf⟩
    · exact connect_misleads hpipes hconnect
    -- The pipe and the start leave the machine sound for the stages to come.
    have hpiped := hsound.of_spends (connect_keeps hspends index readEnd rest.isEmpty host b)
    rcases Action.outcome_bind_eq_error.mp hf with hstage | ⟨_, -, hrest⟩
    · rw [startStage_apply] at hstage
      obtain ⟨f', hstart, rfl⟩ := Action.mapError_eq_error.mp hstage
      exact startFailure_misleads (Group.start_misleads hsilent hpiped hstart) index
    · refine ih (hpiped.of_spends ?_) hrest
      exact startStage_keeps hspends index stage readEnd ends.2 ends.1 host _

/-- The first failure is kept, and only failures of programs count as one. -/
theorem waitStages_misleads (host : Host) (hsilent : setting.Silent) (positions : List Nat)
    (first : Option Failure) (hfirst : ∀ f, first = some f → f.misleads = false) (b : Block) :
    (∀ f, (waitStages setting first positions host b).outcome = .error f →
        f.misleads = false) ∧
      ∀ f, (waitStages setting first positions host b).outcome = .ok (some f) →
        f.misleads = false := by
  induction positions generalizing first b with
  | nil =>
    refine ⟨fun f hf => ?_, fun f hf => hfirst f (Except.ok.inj hf)⟩
    cases hf
  | cons i rest ih =>
    have hwait : ∀ f, (Group.wait setting i host b).outcome = .error f → f.misleads = false :=
      fun _ => Group.wait_misleads hsilent
    simp only [waitStages, Action.bind_apply, Action.attempt_apply, Result.andThen_ok]
    generalize Group.wait setting i host b = r at hwait
    obtain ⟨outcome, b', l⟩ := r
    cases outcome with
    | ok => exact ih first hfirst b'
    | error f =>
      cases f with
      | exitStatus program status =>
        refine ih _ (fun f hf => ?_) b'
        cases first with
        | none =>
          cases hf
          exact hwait (.exitStatus program status) rfl
        | some f' => exact hfirst f hf
      | _ =>
        refine ⟨?_, fun f hf => ?_⟩
        · rintro _ ⟨⟩
          exact hwait _ rfl
        · cases hf

theorem run_misleads (hsilent : setting.Silent)
    (hpipes : ∀ n f, host.pipeFailures n = some f → f.isSystem = true)
    {stages : List (List String)} (hsound : m.Sound)
    (hf : (run setting stages host m).outcome = .error f) : f.misleads = false := by
  cases hstages : stages.mapM Invocation.ofWords with
  | error f' =>
    rw [run, hstages] at hf
    cases hf
    rfl
  | ok invocations =>
    rw [run, hstages] at hf
    rcases Group.closing_failure hsilent hf with hbody | ⟨message, rfl⟩
    · rw [runStages_eq_tendStages] at hbody
      rcases Action.outcome_bind_eq_error.mp hbody with hstart | ⟨_, -, htend⟩
      · exact startStages_misleads hsilent hpipes (b := { machine := m }) hsound hstart
      have hfirst : ∀ f, (none : Option Failure) = some f → f.misleads = false := by
        rintro f ⟨⟩
      obtain ⟨hraises, hgives⟩ := waitStages_misleads host hsilent
        (List.range invocations.length) none hfirst _
      rcases tendStages_failure htend with hwait | hfound
      · exact hraises f hwait
      · exact hgives f hfound
    · rfl

end Pipeline

/-! ## Redirected commands -/

theorem Redirect.run_misleads (hsilent : setting.Silent)
    (hopens : ∀ path f, host.openFailures path = some f → f.misleads = false) {source : String}
    {mode : OpenMode} {target : String} (hsound : m.Sound)
    (hf : (Redirect.run setting source mode target host m).outcome = .error f) :
    f.misleads = false := by
  have hspec := run_spec setting source mode target host m
  generalize run setting source mode target host m = r at hspec hf
  cases hspec with
  | unopened f' _ hfailure =>
    cases hf
    rcases hfailure with rfl | ⟨-, rfl⟩ | ⟨g, hg, rfl⟩
    · rfl
    · rfl
    · refine Failure.misleads_claimedFor ?_ .file target
      rcases of_openFailure? hg with hanswer | rfl
      · exact hopens target g hanswer
      · rfl
  | blank => cases hf
  | program _ _ hr =>
    subst hr
    exact Group.foreground_misleads hsilent (m := opened target m) hsound hf

/-! ## Built-in commands -/

namespace Builtin

theorem runCd_misleads (hhost : host.Candid) {args : List String}
    (hf : (runCd setting args host m).outcome = .error f) : f.misleads = false := by
  simp only [runCd, Action.bind_apply Action.host, Action.host_apply, Result.andThen_ok,
    Result.after_nil] at hf
  rcases Action.outcome_bind_eq_error.mp hf with htarget | ⟨target, -, hcall⟩
  · rw [Action.ofExcept_apply] at htarget
    rw [eq_noHome_of_cdTarget htarget]
    rfl
  · obtain ⟨f', hf', rfl⟩ := Action.mapError_eq_error.mp hcall
    refine Failure.misleads_claimedFor ?_ .directory _
    rcases Machine.changeDirectory_failure hf' with ⟨-, rfl⟩ | rfl | hanswer
    · rfl
    · rfl
    · exact hhost.directories target f' hanswer

theorem killFailure_misleads (h : f.misleads = false) (pid : Int) :
    (killFailure pid f).misleads = false := by
  unfold killFailure
  split
  · split <;> rfl
  · rfl
  · exact h

theorem runKill_misleads (hhost : host.Candid) {args : List String}
    (hf : (runKill args host m).outcome = .error f) : f.misleads = false := by
  rcases Action.outcome_bind_eq_error.mp hf with htarget | ⟨pid, -, hrest⟩
  · rw [Action.ofExcept_apply] at htarget
    obtain ⟨message, rfl⟩ := of_killTarget htarget
    rfl
  rcases Action.outcome_bind_eq_error.mp hrest with hcall | ⟨-, -, hlog⟩
  · obtain ⟨f', hf', rfl⟩ := Action.mapError_eq_error.mp hcall
    refine killFailure_misleads ?_ pid
    rcases Machine.kill_failure hf' with hoverflow | rfl | hanswer
    · obtain ⟨message, rfl⟩ := of_pidOverflow? hoverflow
      rfl
    · rfl
    · exact hhost.targets pid f' hanswer
  · cases hlog

theorem run_misleads (hsilent : setting.Silent) (hhost : host.Candid) (hsound : m.Sound)
    {command : Builtin} {args : List String} {text : String}
    (hf : (command.run setting args text host m).outcome = .error f) : f.misleads = false := by
  cases command with
  | pwd => exact hhost.cwd f (runPwd_failure hf)
  | cd => exact runCd_misleads hhost hf
  | kill => exact runKill_misleads hhost hf
  | ps => exact Group.foreground_misleads hsilent hsound hf
  | echo => cases (outcome_writeLine setting (echoMessage text) host m).symm.trans hf

end Builtin

/-! ## Leaves -/

namespace Shell

variable {shell : Shell} {s : Session} {t : Tree}

/-- What comes out of a tree that is no conditional does not mislead. -/
theorem leaf_misleads (hcommands : shell.commands = builtinCommands)
    (hsilent : shell.setting.Silent) (hhost : host.Candid)
    (hpipes : ∀ n f, host.pipeFailures n = some f → f.isSystem = true)
    (hleaf : ∀ groups, t ≠ .conditional groups) (hsound : s.machine.Sound) {depth : Nat}
    (hf : (runTree shell (interpreter shell depth) t host s).outcome = .error f) :
    f.misleads = false := by
  cases t with
  | command text words =>
    rw [runTree] at hf
    cases words with
    | nil => cases hf
    | cons name args =>
      rcases runCommand_cases hcommands depth text name args with ⟨command, rfl, hran⟩ | hran
      · rw [hran] at hf
        exact Builtin.run_misleads hsilent hhost hsound hf
      · rw [hran] at hf
        exact Group.foreground_misleads hsilent hsound hf
  | redirect source mode target =>
    rw [runTree] at hf
    exact Redirect.run_misleads hsilent hhost.opens hsound hf
  | pipeline stages =>
    rw [runTree] at hf
    exact Pipeline.run_misleads hsilent hpipes hsound hf
  | conditional groups => exact absurd rfl (hleaf groups)

end Shell

end LineShell
