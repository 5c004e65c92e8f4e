/-
  LineShell.Proofs.CommandLine.OneLine

  The two ways to run one line.

  A line is run when it is given to the program by itself, and when it is the first
  line of an input that no one types.  Between the requests for input both guard
  the interrupt key, dispatch the line and restore the handler, in this order, so
  they cannot be told apart but by the requests (`session_eq_execLine`): not where
  a handler cannot be put in place, and not where the failure of the line escapes.
-/

import LineShell.Proofs.CommandLine.Restored

namespace LineShell

/-- A cleanup sees nothing of what has happened before an action. -/
theorem Action.ensuring_apply_of_after {σ α : Type} {x y : Action σ α} {host : Host} {s : σ}
    {l : List Event} (h : x host s = (y host s).after l) (cleanup : Action σ Unit) :
    x.ensuring cleanup host s = (y.ensuring cleanup host s).after l := by
  simp only [ensuring, bind_apply, attempt_apply, Result.andThen_ok, h, Result.outcome_after,
    Result.state_after, Result.events_after, Result.after_append]

namespace ReadLoop

variable {shell : Shell} {host : Host} {s : Session} {lines : List String} {line raw : String}

theorem filter_unasking {l : List Event} (h : ∀ e ∈ l, e.isInput = false) :
    l.filter (fun e => !e.isInput) = l :=
  List.filter_eq_self.mpr fun e he => by simp [h e he]

/-- Whatever is run guarded, only what is run can ask for input. -/
theorem guarded_unasking {α : Type} {body : Action Session α}
    (hbody : ∀ host s, ∀ e ∈ (body host s).events, e.isInput = false) (host : Host)
    (s : Session) : ∀ e ∈ (guarded shell body host s).events, e.isInput = false := by
  have hpath : IsPath fun (_ : Session) l (_ : Session) => ∀ e ∈ l, e.isInput = false :=
    .forall_mem _
  have hguard := (Shell.obeys_unasking shell).guard shell.policy
  exact Action.Keeps.bind hpath hguard
    (fun _ => .ensuring hpath hbody (restore_unasking shell.policy)) host s

/-- An input of which one line is to be dispatched: requests for input, then that line. -/
theorem readingOne_of_due (shell : Shell) (h : due host false lines = [line]) (s : Session) :
    ∃ asked, (∀ e ∈ asked, e.isInput = true) ∧
      readingOne shell lines host s = (dispatch shell line host s).after asked := by
  induction lines with
  | nil => cases h
  | cons raw rest ih =>
    by_cases hraw : raw = ""
    · subst hraw
      rw [due_cons_empty] at h
      obtain ⟨asked, hasked, hread⟩ := ih h
      refine ⟨.input "" :: asked, List.forall_mem_cons.mpr ⟨rfl, hasked⟩, ?_⟩
      rw [readingOne_cons_empty, hread]
      exact (Result.after_append [.input ""] asked _).symm
    · -- The first line that is not empty decides, and it is neither an exit word nor blank.
      have hexit : prepare host raw ∉ exitWords := by
        intro hexit
        rw [due_cons_of_exit hraw hexit] at h
        cases h
      have hline : prepare host raw ≠ "" := by
        intro hblank
        rw [due_cons_of_blank hraw hblank] at h
        cases h
      have hdue : Due host raw := ⟨hraw, hexit, hline⟩
      rw [due_cons hdue, List.cons.injEq] at h
      refine ⟨[.input ""], List.forall_mem_singleton.mpr rfl, ?_⟩
      rw [readingOne_cons hraw, if_neg hdue.not_ignored, h.1]

/-- Reading an input of which one line is to be dispatched is dispatching the line guarded. -/
theorem session_of_due (shell : Shell) (h : due host false lines = [line]) (s : Session) :
    let alone := guarded shell (dispatch shell line) host s
    let read := session shell false lines host s
    (∃ unread, read.outcome = .ok ⟨alone.outcome, unread⟩) ∧ read.state = alone.state ∧
      read.events.filter (fun e => !e.isInput) = alone.events := by
  intro alone read
  have hnone : ∀ e ∈ alone.events, e.isInput = false :=
    guarded_unasking (dispatch_unasking shell line) host s
  have hread : read = ending lines (guarded shell (readingOne shell lines) host s) :=
    session_eq_reading shell false lines host s
  have hguard := Governor.guard_switched shell.policy host s
  simp only [guarded, Action.bind_apply, alone] at hread hnone ⊢
  generalize Governor.guard shell.policy host s = r at hguard hread hnone
  rw [hread]
  cases hguard with
  | refused => exact ⟨⟨_, rfl⟩, rfl, filter_unasking hnone⟩
  | accepted message =>
    obtain ⟨asked, hasked, hone⟩ := readingOne_of_due shell h _
    have hdropped : asked.filter (fun e => !e.isInput) = [] :=
      List.filter_eq_nil_iff.mpr fun e he => by simp [hasked e he]
    simp only [Result.andThen_ok, Result.events_after, List.forall_mem_append] at hnone ⊢
    obtain ⟨hbefore, hbehind⟩ := hnone
    rw [Action.ensuring_apply_of_after hone]
    refine ⟨⟨_, rfl⟩, rfl, ?_⟩
    simp only [ending, Result.events_after, List.filter_append, hdropped, List.nil_append,
      filter_unasking hbefore, filter_unasking hbehind]

theorem errorText_cons (debugging : Bool) (e : Event) (l : List Event) :
    CommandLine.errorText debugging (e :: l)
      = CommandLine.errorText debugging [e] ++ CommandLine.errorText debugging l := by
  simp only [CommandLine.errorText, List.map_cons, List.map_nil, String.join_cons, String.join_nil,
    String.append_empty]

/-- A request for input puts nothing on the standard error output. -/
theorem errorText_filter (debugging : Bool) (l : List Event) :
    CommandLine.errorText debugging (l.filter fun e => !e.isInput)
      = CommandLine.errorText debugging l := by
  induction l with
  | nil => rfl
  | cons e l ih =>
    rw [errorText_cons debugging e l, ← ih]
    cases hinput : e.isInput with
    | true =>
      have hnone : CommandLine.errorText debugging [e] = "" := by
        cases e <;> first | rfl | cases hinput
      rw [List.filter_cons_of_neg (by simp [hinput]), hnone, String.empty_append]
    | false => rw [List.filter_cons_of_pos (by simp [hinput]), errorText_cons]

/-- A line that has no references to variables is run the same way by itself and as the first
    line of an input, whatever comes of it. -/
theorem session_eq_execLine (shell : Shell) (host : Host) (s : Session) (raw : String)
    (rest : List String)
    (hplain : Text.expand (fun name => host.environment.lookup name) raw = raw)
    (hline : Text.trim raw ≠ "") (hexit : Text.trim raw ∉ exitWords) :
    let alone := execLine shell raw host s
    let read := session shell false (raw :: rest) host s
    (∃ unread, read.outcome = .ok ⟨alone.outcome, unread⟩) ∧ read.state = alone.state ∧
      read.events.filter (fun e => !e.isInput) = alone.events ∧
      ∀ debugging, CommandLine.errorText debugging read.events
        = CommandLine.errorText debugging alone.events := by
  intro alone read
  have hprepare : prepare host raw = Text.trim raw := by rw [prepare, hplain]
  have hraw : raw ≠ "" := by
    rintro rfl
    exact hline rfl
  have hdue : due host false (raw :: rest) = [Text.trim raw] := by
    rw [← hprepare] at hline hexit ⊢
    exact due_cons ⟨hraw, hexit, hline⟩
  have halone : alone = guarded shell (dispatch shell (Text.trim raw)) host s := by
    have hempty : ¬ (Text.trim raw).isEmpty := fun h => hline (String.isEmpty_iff.mp h)
    simp only [alone, execLine, if_neg hempty]
  obtain ⟨houtcome, hstate, hevents⟩ := session_of_due shell hdue s
  rw [← halone] at houtcome hstate hevents
  refine ⟨houtcome, hstate, hevents, fun debugging => ?_⟩
  rw [← hevents, errorText_filter]

/-- A line whose failure escapes, with blanks around it and another line behind it. -/
theorem session_eq_execLine_escaping :
    let host : Host := { cwdFailure := some .noSuchFile }
    let raw := "  pwd $ "
    let alone := execLine {} raw host { machine := {} }
    let read := session {} false [raw, "echo b"] host { machine := {} }
    Text.expand (fun name => host.environment.lookup name) raw = raw ∧ Text.trim raw ≠ "" ∧
      Text.trim raw ∉ exitWords ∧ alone.failure? = some .noSuchFile ∧
      (∃ unread, read.outcome = .ok ⟨alone.outcome, unread⟩) ∧ read.state = alone.state ∧
      read.events.filter (fun e => !e.isInput) = alone.events := by
  intro host raw alone read
  have hplain : Text.expand (fun name => host.environment.lookup name) raw = raw := by
    decide +kernel
  have hline : Text.trim raw ≠ "" := by decide +kernel
  have hexit : Text.trim raw ∉ exitWords := by decide +kernel
  obtain ⟨houtcome, hstate, hevents, -⟩ :=
    session_eq_execLine {} host { machine := {} } raw ["echo b"] hplain hline hexit
  exact ⟨hplain, hline, hexit, by decide +kernel, houtcome, hstate, hevents⟩

end ReadLoop

end LineShell
