/-
  LineShell.Proofs.Shell.OneStage

  A pipeline of one stage, and the same command by itself.

  Both run one program in a group of its own.  A plain command leaves its block with
  what the start or the wait fails with.  A pipeline wraps what the start fails with,
  and keeps what the wait fails with until all stages have been waited for.  With one
  stage there is no pipe and nobody else to wait for, so the two cause the same events
  and leave the same state.  Only the failure tells them apart: that of the program is
  the failure of stage 0, with the same exit status (`run_pipeline_one`).
-/

import LineShell.Proofs.Action.Similar
import LineShell.Proofs.Group.Silent
import LineShell.Proofs.Pipeline.Trace
import LineShell.Shell.Basic

namespace LineShell

/-- The failure of a command as a pipeline of this one stage has it: a program that could not be
    launched, or has ended with a failure, is the failure of its stage. -/
def Failure.inStage (f : Failure) : Failure :=
  match f with
  | .shell .launch _ | .exitStatus .. => .stage 0 f
  | _ => f

theorem Failure.exitStatus?_inStage (f : Failure) : f.inStage.exitStatus? = f.exitStatus? := by
  unfold inStage
  split <;> rfl

/-- The failure is the status of a program that has ended. -/
def Failure.isExit : Failure → Bool
  | .exitStatus .. => true
  | _ => false

theorem Failure.isExit_claimedFor {f : Failure} (h : f.isExit = false) (category : Category)
    (subject : String) : (f.claimedFor category subject).isExit = false := by
  unfold claimedFor
  split
  · rfl
  · exact h

/-- No start of the program is refused with the status of a program that has ended. -/
def Machine.RefusesPlainly (m : Machine) (program : String) : Prop :=
  ∀ f, .refused f ∈ m.programs program → f.isExit = false

theorem Machine.RefusesPlainly.of_offers {m : Machine} {program : String}
    (h : m.RefusesPlainly program) {f : Failure} (hoffers : m.Offers program (.refused f)) :
    f.isExit = false := by
  rcases hoffers with hnone | hmem
  · cases hnone
    rfl
  · exact h f hmem

namespace Pipeline

variable {setting : Setting} {host : Host} {m : Machine} {b : Block} {program : String}

/-! ## The two drivers -/

/-- The failure of a wait as the pipeline reports it: a program that ended with a failure is the
    failure of its stage. -/
def waitFailure (index : Nat) (f : Failure) : Failure :=
  match f with
  | .exitStatus .. => .stage index f
  | _ => f

/-- One stage is started as a command is that inherits its streams: there is no pipe to close. -/
theorem startStage_one (setting : Setting) (program : String) (args : List String) :
    startStage setting 0 { program, args } none none none =
      (Group.start setting { program, args }).mapFailure (startFailure 0) := by
  ext host b
  have hevents : ∀ r : Result Block Nat,
      r.events ++ closes none ++ closes none ++ (if r.outcome.isOk then [] else closes none)
        = r.events := by
    simp [closes]
  rw [startStage_apply, hevents]
  rfl

theorem startStages_one (setting : Setting) (program : String) (args : List String) :
    startStages setting 0 none [{ program, args }] =
      (Group.start setting { program, args }).mapFailure (startFailure 0) >>= fun _ => pure () := by
  rw [startStages_cons, ← startStage_one]
  rfl

/-- Tending one stage is waiting for it, and its failure, kept until the end, is all there is to
    report. -/
theorem tendStages_one (setting : Setting) (stage : Invocation) :
    (tendStages setting [stage]).Similar ((Group.wait setting 0).mapFailure (waitFailure 0)) := by
  refine (Action.Similar.log_bind _ _ _).trans fun host b => ?_
  have hrange : List.range [stage].length = [0] := rfl
  simp only [hrange, waitStages, Action.bind_apply, Action.attempt_apply, Result.andThen_ok,
    Action.mapFailure_apply]
  generalize Group.wait setting 0 host b = r
  obtain ⟨outcome, b', l⟩ := r
  cases outcome with
  | ok _ => simp
  | error f => cases f <;> simp [waitFailure]

theorem runStages_one (setting : Setting) (program : String) (args : List String) :
    (runStages setting [{ program, args }]).Similar
      ((Group.start setting { program, args }).mapFailure (startFailure 0) >>= fun _ =>
        (Group.wait setting 0).mapFailure (waitFailure 0)) := by
  rw [runStages_eq_tendStages, startStages_one, bind_assoc]
  exact .bind (.refl _) fun _ => tendStages_one setting _

/-! ## Where the failures come from -/

theorem startFailure_eq_inStage {f : Failure} (h : f.isExit = false) :
    startFailure 0 f = f.inStage := by
  cases f with
  | exitStatus => cases h
  | shell category => cases category <;> rfl
  | _ => rfl

/-- No wait fails as if a program could not be launched. -/
theorem waitFailure_eq_inStage (hsilent : setting.Silent) {i : Nat} {f : Failure}
    (hf : (Group.wait setting i host b).outcome = .error f) : waitFailure 0 f = f.inStage := by
  rcases Group.wait_failure hsilent hf with rfl | rfl | rfl | ⟨program, status, -, rfl⟩ <;> rfl

/-- A pipeline of one stage does in its group what the plain command does. -/
theorem runStages_one_eq (hsilent : setting.Silent) (hrefused : m.RefusesPlainly program)
    (args : List String) (host : Host) :
    (runStages setting [{ program, args }] host { machine := m }).withoutLog =
      ((Group.start setting { program, args } >>= Group.wait setting).mapFailure Failure.inStage
        host { machine := m }).withoutLog := by
  rw [runStages_one setting program args host { machine := m }]
  congr 1
  have hspec := Group.start_spec setting { program, args } host { machine := m }
  simp only [Action.bind_apply, Action.mapFailure_apply]
  generalize Group.start setting { program, args } host { machine := m } = r at hspec
  cases hspec with
  | refused => rfl
  | failed hf =>
    have hexit := Failure.isExit_claimedFor (hrefused.of_offers hf) .launch program
    simp only [Action.mapError_error, Result.andThen_error, startFailure_eq_inStage hexit]
  | @running m' _ _ outcome p message _ _ _ houtcome =>
    obtain rfl : outcome = .ok 0 := hsilent.outcome_eq houtcome
    -- The one member is at position 0, which is where both wait.
    have hwait := @waitFailure_eq_inStage setting host
      (({ machine := m' } : Block).addMember p) hsilent 0
    simp only [Action.mapError_ok, Result.andThen_ok]
    generalize Group.wait setting 0 host _ = waited at hwait
    obtain ⟨f | u, b', l⟩ := waited
    · simp [hwait rfl]
    · rfl

/-- The pipeline of one stage and the command in the foreground differ in the failure that they
    make of the program's. -/
theorem run_one (hsilent : setting.Silent) (hrefused : m.RefusesPlainly program)
    (args : List String) (host : Host) :
    (run setting [program :: args] host m).withoutLog =
      ((Group.foreground setting { program, args }).mapFailure Failure.inStage host
        m).withoutLog := by
  have hblock := runStages_one_eq hsilent hrefused args host
  have hreaped := Group.foreground_reaped host hsilent { program, args } m
  have hstages : [program :: args].mapM Invocation.ofWords = .ok [{ program, args }] := rfl
  rw [run_of_mapM_ofWords hstages, Group.closing_apply, Action.mapFailure_apply,
    Group.foreground_eq_of_silent hsilent]
  rw [Action.mapFailure_apply] at hblock
  generalize (Group.start setting { program, args } >>= Group.wait setting) host
    { machine := m } = alone at hblock hreaped
  generalize runStages setting [{ program, args }] host { machine := m } = stage at hblock
  obtain ⟨outcome, b, l⟩ := stage
  simp only [Result.withoutLog, Result.mk.injEq] at hblock
  obtain ⟨rfl, rfl, hevents⟩ := hblock
  -- The one member has been waited for, so neither of the two has anything to do on leaving.
  rw [Group.leave_of_reaped _ hreaped]
  simp only [Result.withoutLog, Result.mapState, Result.after_mk, List.append_nil, hevents]

end Pipeline

/-! ## Trees -/

namespace Shell

/-- A pipeline of one stage and a plain command, of the same words and without a handler: the same
    events but for diagnostics, the same state, and the same outcome but for a failure to launch
    the program or of the program itself.  This the pipeline has as the failure of stage 0, with
    the same exit status. -/
theorem run_pipeline_one (shell : Shell) (text name : String) (args : List String) (host : Host)
    (s : Session) (hsilent : shell.setting.Silent) (hname : shell.commands.find? name = none)
    (hrefused : s.machine.RefusesPlainly name) :
    let plain := shell.run (.command text (name :: args)) host s
    let piped := shell.run (.pipeline [name :: args]) host s
    withoutLog piped.events = withoutLog plain.events ∧
      piped.state = plain.state ∧
      piped.outcome = plain.outcome.mapError Failure.inStage ∧
      ∀ f f', plain.outcome = .error f → piped.outcome = .error f' →
        f'.exitStatus? = f.exitStatus? := by
  intro plain piped
  have hplain : plain = (Group.foreground shell.setting { program := name, args }).inSession
      host s := by
    simp only [plain, run, runTree, runCommand, hname]
  have hpiped : piped = (Pipeline.run shell.setting [name :: args]).inSession host s := by
    simp only [piped, run, runTree]
  have hsame := Pipeline.run_one hsilent hrefused args host
  simp only [Action.mapFailure_apply, Result.withoutLog, Result.mk.injEq] at hsame
  obtain ⟨houtcome, hstate, hevents⟩ := hsame
  have houtcome : piped.outcome = plain.outcome.mapError Failure.inStage := by
    rw [hplain, hpiped]
    exact houtcome
  refine ⟨?_, ?_, houtcome, fun f f' hf hf' => ?_⟩
  · rw [hplain, hpiped]
    exact hevents
  · rw [hplain, hpiped]
    simp only [Action.inSession, Action.zoom_apply, hstate]
  · rw [houtcome, hf] at hf'
    cases hf'
    exact f.exitStatus?_inStage

/-- A program that is killed, under an observer. -/
theorem run_pipeline_one_killed :
    let shell : Shell := { setting := { hook := some fun _ _ => none } }
    let s : Session := { machine := { programs := fun _ => [.started { status := -9 }] } }
    let plain := shell.run (.command "p x" ["p", "x"]) {} s
    let piped := shell.run (.pipeline [["p", "x"]]) {} s
    (shell.setting.Silent ∧ shell.commands.find? "p" = none ∧ s.machine.RefusesPlainly "p") ∧
      (withoutLog piped.events = withoutLog plain.events ∧
        piped.state = plain.state ∧
        piped.outcome = plain.outcome.mapError Failure.inStage ∧
        ∀ f f', plain.outcome = .error f → piped.outcome = .error f' →
          f'.exitStatus? = f.exitStatus?) ∧
      plain.outcome = .error (.exitStatus "p" (-9)) ∧
      piped.outcome = .error (.stage 0 (.exitStatus "p" (-9))) ∧
      (Failure.exitStatus "p" (-9)).exitStatus? = some 137 := by
  intro shell s plain piped
  have hsilent : shell.setting.Silent := by
    rintro hook ⟨⟩ n event
    rfl
  have hname : shell.commands.find? "p" = none := by decide
  have hrefused : s.machine.RefusesPlainly "p" := by
    intro f hf
    simp [s] at hf
  refine ⟨⟨hsilent, hname, hrefused⟩, ?_, by decide +kernel, by decide +kernel, rfl⟩
  exact run_pipeline_one shell "p x" "p" ["x"] {} s hsilent hname hrefused

end Shell

end LineShell
