/-
  LineShell.Proofs.Redirect.Inversion

  What a redirected command can come to.

  Either the file is not opened, and nothing is started; or it is opened first
  and closed last, and what lies between is nothing at all, if the command is
  blank, and otherwise a program in the foreground.  A path relation that is kept by
  these is kept by the whole command (`run_keeps`).
-/

import LineShell.Proofs.Action.Keeps
import LineShell.Redirect

namespace LineShell

/-- An invocation that is read from words has no streams of its own. -/
theorem Invocation.streams_of_ofWords {words : List String} {invocation : Invocation}
    (h : ofWords words = .ok invocation) : invocation.stdin = .inherited ∧
      invocation.stdout = .inherited ∧ invocation.stderr = .inherited := by
  cases words <;> cases h
  exact ⟨rfl, rfl, rfl⟩

/-- An invocation that is read from words has these. -/
theorem Invocation.argv_of_ofWords {words : List String} {invocation : Invocation}
    (h : ofWords words = .ok invocation) : invocation.argv = words := by
  cases words <;> cases h
  rfl

namespace Redirect

/-- Attaching the file changes the streams and none of the words. -/
@[simp] theorem argv_attach (mode : OpenMode) (target : String) (invocation : Invocation) :
    (attach mode target invocation).argv = invocation.argv := by
  cases mode <;> rfl

@[simp] theorem stderr_attach (mode : OpenMode) (target : String) (invocation : Invocation) :
    (attach mode target invocation).stderr = invocation.stderr := by
  cases mode <;> rfl

/-- The machine on which a file has been opened. -/
def opened (target : String) (m : Machine) : Machine := { m with files := target :: m.files }

/-- What opening a file can come to. -/
theorem openFile_spec (path : String) (mode : OpenMode) (host : Host) (m : Machine) :
    (∃ f l, Machine.openFile path mode host m = ⟨.error f, m, l⟩ ∧
        (l = [] ∨ l = [.openFile path mode false]) ∧
        (Machine.hasNull path = true ∧ f = .embeddedNull ∨
          Machine.openFailure? host m path mode = some f)) ∨
      Machine.openFile path mode host m =
        ⟨.ok (), opened path m, [.openFile path mode true]⟩ := by
  by_cases hnull : Machine.hasNull path = true
  · exact .inl ⟨.embeddedNull, [], by simp [Machine.openFile, hnull], .inl rfl, .inl ⟨hnull, rfl⟩⟩
  · cases hfailure : Machine.openFailure? host m path mode with
    | some f =>
      refine .inl ⟨f, [.openFile path mode false], ?_, .inr rfl, .inr rfl⟩
      simp [Machine.openFile, hnull, hfailure]
    | none =>
      refine .inr ?_
      simp [Machine.openFile, hnull, hfailure, opened]

/-- What a redirected command can come to. -/
inductive Ran (setting : Setting) (source : String) (mode : OpenMode) (target : String)
    (host : Host) (m : Machine) : Result Machine Unit → Prop
  | unopened (f : Failure) {l : List Event} (hl : l = [] ∨ l = [.openFile target mode false])
      (hf : f = missingFile mode ∨ Machine.hasNull target = true ∧ f = .embeddedNull ∨
        ∃ g, Machine.openFailure? host m target mode = some g ∧ f = g.claimedFor .file target) :
      Ran setting source mode target host m ⟨.error f, m, l⟩
  | blank (hblank : Text.words source = []) :
      Ran setting source mode target host m
        ⟨.ok (), opened target m, [.openFile target mode true, .closeFile target]⟩
  | program {invocation : Invocation} (message : String) {r : Result Machine Unit}
      (hwords : Invocation.ofWords (Text.words source) = .ok invocation)
      (hr : Group.foreground setting (attach mode target invocation) host (opened target m) = r) :
      Ran setting source mode target host m
        ⟨r.outcome, r.state, .openFile target mode true :: .log .redirect message ::
          (r.events ++ [.closeFile target])⟩

theorem run_spec (setting : Setting) (source : String) (mode : OpenMode) (target : String)
    (host : Host) (m : Machine) :
    Ran setting source mode target host m (run setting source mode target host m) := by
  by_cases hempty : target.isEmpty = true
  · have hrun : run setting source mode target host m = ⟨.error (missingFile mode), m, []⟩ := by
      simp [run, withFile, hempty]
    rw [hrun]
    exact .unopened _ (.inl rfl) (.inl rfl)
  · rcases openFile_spec target mode host m with ⟨f, l, hopen, hl, hf⟩ | hopen
    · have hrun : run setting source mode target host m
          = ⟨.error (f.claimedFor .file target), m, l⟩ := by
        simp [run, withFile, hempty, hopen]
      rw [hrun]
      refine .unopened _ hl (.inr ?_)
      rcases hf with ⟨hnull, rfl⟩ | hfailure
      · exact .inl ⟨hnull, rfl⟩
      · exact .inr ⟨f, hfailure, rfl⟩
    · cases hwords : Text.words source with
      | nil =>
        have hrun : run setting source mode target host m
            = ⟨.ok (), opened target m, [.openFile target mode true, .closeFile target]⟩ := by
          simp [run, withFile, hempty, hopen, hwords, Action.ensuring,
            Machine.closeFile]
        rw [hrun]
        exact .blank hwords
      | cons program args =>
        have hinvocation : Invocation.ofWords (Text.words source) = .ok { program, args } := by
          rw [hwords]
          rfl
        simp only [run, withFile, hempty, hopen, hwords, Invocation.ofWords, Action.mapError_ok,
          Action.ensuring, Action.bind_apply, Action.mapFailure_apply, Action.attempt_apply,
          Action.ofExcept_apply, Action.log_apply, Machine.closeFile,
          Action.emit_apply, Bool.false_eq_true, if_false, Result.andThen_ok, Result.after_mk,
          Result.state_after, Result.outcome_after, Result.events_after, List.nil_append,
          List.append_nil, List.cons_append]
        exact .program _ hinvocation rfl

theorem run_keeps {R : Machine → List Event → Machine → Prop} (hR : IsPath R)
    {setting : Setting} {source : String} {mode : OpenMode} {target : String}
    (hrefused : ∀ m, R m [.openFile target mode false] m)
    (hopened : ∀ m, R m [.openFile target mode true] (opened target m))
    (hclosed : ∀ m, R m [.closeFile target] m)
    (hlog : ∀ m message, R m [.log .redirect message] m)
    (hforeground : ∀ invocation, Invocation.ofWords (Text.words source) = .ok invocation →
      (Group.foreground setting (attach mode target invocation)).Keeps R) :
    (run setting source mode target).Keeps R := by
  intro host m
  have hspec := run_spec setting source mode target host m
  generalize run setting source mode target host m = r at hspec
  cases hspec with
  | unopened f hl _ =>
    rcases hl with rfl | rfl
    · exact hR.nil m
    · exact hrefused m
  | blank => exact hR.append (hopened m) (hclosed _)
  | @program invocation message _ hwords hr =>
    subst hr
    have hbegun := hR.append (hopened m) (hlog _ message)
    have hrun := hforeground invocation hwords host (opened target m)
    exact hR.append hbegun (hR.append hrun (hclosed _))

end Redirect

end LineShell
