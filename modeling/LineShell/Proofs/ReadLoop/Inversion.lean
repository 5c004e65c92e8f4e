/-
  LineShell.Proofs.ReadLoop.Inversion

  What dispatching and reading lines can come to.

  A read loop reports the failures of the shell and interrupts; only another
  failure comes out of a line that it dispatches, and ends it (`dispatch_spec`).
  What becomes of one line that has been read is said once (`Read`).
-/

import LineShell.Action.Lemmas
import LineShell.Proofs.Failure
import LineShell.ReadLoop

namespace LineShell

namespace ReadLoop

variable {shell : Shell} {host : Host} {s : Session}

/-- What is reported of a line comes behind all else, and its failure comes out if it is not
    reported. -/
theorem dispatch_spec (shell : Shell) (line : String) (host : Host) (s : Session) :
    (dispatch shell line host s).state = (shell.execute line host s).state ∧
      (∃ l, (dispatch shell line host s).events = (shell.execute line host s).events ++ l ∧
        ∀ e ∈ l, ∃ text, e = .err text) ∧
      ∀ f, (dispatch shell line host s).outcome = .error f ↔
        (shell.execute line host s).outcome = .error f ∧ f.isReported = false := by
  simp only [dispatch, Action.bind_apply, Action.attempt_apply, Result.andThen_ok]
  generalize shell.execute line host s = r
  obtain ⟨outcome, s', l⟩ := r
  cases outcome with
  | ok => exact ⟨rfl, ⟨[], rfl, List.forall_mem_nil _⟩, fun f => ⟨nofun, nofun⟩⟩
  | error f =>
    cases hstatus : f.exitStatus? with
    -- A failure with a status is one of the shell.
    | some status =>
      have hreported : f.isReported = true :=
        Failure.isReported_of_isShell (by simp [Failure.isShell, hstatus])
      simp only [hstatus]
      refine ⟨rfl, ⟨_, rfl, List.forall_mem_singleton.mpr ⟨_, rfl⟩⟩, fun f' => ⟨nofun, ?_⟩⟩
      rintro ⟨⟨⟩, hunreported⟩
      rw [hreported] at hunreported
      cases hunreported
    | none =>
      cases f with
      | interrupt message =>
        refine ⟨rfl, ⟨_, rfl, List.forall_mem_singleton.mpr ⟨_, rfl⟩⟩, fun f' => ⟨nofun, ?_⟩⟩
        rintro ⟨⟨⟩, hunreported⟩
        cases hunreported
      | shell | exitStatus | stage => cases hstatus
      | system | systemText | fault =>
        refine ⟨rfl, ⟨[], rfl, List.forall_mem_nil _⟩, fun f' => ⟨?_, ?_⟩⟩
        · rintro ⟨⟩
          exact ⟨rfl, rfl⟩
        · rintro ⟨⟨⟩, -⟩
          rfl

/-- Reads on where the run is interactive, and ends with the status where it is not. -/
def goOn (shell : Shell) (interactive : Bool) (rest : List String) (status : Int) :
    Action Session Ending :=
  if interactive then readLines shell interactive rest else pure ⟨.ok status, rest⟩

theorem goOn_interactive (shell : Shell) (rest : List String) (status : Int) :
    goOn shell true rest status = readLines shell true rest := if_pos rfl

theorem goOn_single (shell : Shell) (rest : List String) (status : Int) :
    goOn shell false rest status = pure ⟨.ok status, rest⟩ := if_neg Bool.false_ne_true

/-- The line is one to be dispatched. -/
structure Due (host : Host) (raw : String) : Prop where
  nonempty : raw ≠ ""
  exits : prepare host raw ∉ exitWords
  line : prepare host raw ≠ ""

/-- What becomes of a line that has been read. -/
inductive Read (shell : Shell) (interactive : Bool) (raw : String) (rest : List String)
    (host : Host) (s : Session) : Result Session Ending → Prop
  | empty (h : raw = "") :
      Read shell interactive raw rest host s (readLines shell interactive rest host s)
  | exited (hraw : raw ≠ "") (h : prepare host raw ∈ exitWords) :
      Read shell interactive raw rest host s ⟨.ok ⟨.ok 0, rest⟩, s, []⟩
  | blank (hraw : raw ≠ "") (h : prepare host raw = "") :
      Read shell interactive raw rest host s (goOn shell interactive rest 0 host s)
  | failed {f : Failure} {s' : Session} {l : List Event}
      (h : dispatch shell (prepare host raw) host s = ⟨.error f, s', l⟩) (hdue : Due host raw) :
      Read shell interactive raw rest host s ⟨.ok ⟨.error f, rest⟩, s', l⟩
  | dispatched {status : Int} {s' : Session} {l : List Event}
      (h : dispatch shell (prepare host raw) host s = ⟨.ok status, s', l⟩) (hdue : Due host raw) :
      Read shell interactive raw rest host s
        ((goOn shell interactive rest status host s').after l)

theorem readLines_cons (shell : Shell) (interactive : Bool) (raw : String) (rest : List String)
    (host : Host) (s : Session) :
    ∃ r, Read shell interactive raw rest host s r ∧
      readLines shell interactive (raw :: rest) host s
        = r.after [.input (if interactive then prompt else "")] := by
  simp only [readLines, Action.bind_apply, Action.emit_apply, Result.andThen_ok]
  refine ⟨_, ?_, rfl⟩
  -- The cases come in the order in which the loop looks at the line.
  by_cases hempty : raw.isEmpty
  · rw [if_pos hempty]
    exact .empty (String.isEmpty_iff.mp hempty)
  have hraw : raw ≠ "" := fun h => hempty (String.isEmpty_iff.mpr h)
  rw [if_neg hempty, Action.bind_apply, Action.host_apply, Result.andThen_ok, Result.after_nil]
  by_cases hexit : prepare host raw ∈ exitWords
  · simp only [if_pos hexit]
    exact .exited hraw hexit
  simp only [if_neg hexit]
  by_cases hblank : (prepare host raw).isEmpty
  · simp only [if_pos hblank]
    exact .blank hraw (String.isEmpty_iff.mp hblank)
  have hdue : Due host raw := ⟨hraw, hexit, fun h => hblank (String.isEmpty_iff.mpr h)⟩
  simp only [if_neg hblank, Action.bind_apply, Action.attempt_apply, Result.andThen_ok]
  cases h : dispatch shell (prepare host raw) host s with
  | mk outcome s' l =>
    cases outcome with
    | error f =>
      simp only [Action.pure_apply, Result.after_mk, List.append_nil]
      exact .failed h hdue
    | ok status => exact .dispatched h hdue

end ReadLoop

end LineShell
