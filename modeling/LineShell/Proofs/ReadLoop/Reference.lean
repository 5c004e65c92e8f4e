/-
  LineShell.Proofs.ReadLoop.Reference

  What reading lines comes to, without a loop.

  An interactive run serves the lines up to the first exit word, one after the
  other, and then ends with success; what is reported of one line does not count
  for the next, but its state does.  Any other run answers the first line that is
  not empty.  Reading lines behaves like this on every input, down to the requests
  for input and the lines left unread (`session_eq_reading`).
-/

import LineShell.Proofs.ReadLoop.Inversion
import LineShell.Proofs.Shell.Bracket

namespace LineShell

/-- Whether the event is a request for a line of input. -/
def Event.isInput : Event → Bool
  | .input _ => true
  | _ => false

namespace ReadLoop

/-! ## The reference -/

/-- Reports how a line has ended, and gives its status.  A failure that is not reported goes
    on. -/
def answer : Except Failure Unit → Action Session Int
  | .ok () => pure 0
  | .error (.interrupt _) => do
    .emit (.err "\n")
    pure 130
  | .error f =>
    match f.exitStatus? with
    | some status => do
      .emit (.err s!"minish: {f.message}\n")
      pure status
    | none => .fail f

/-- One line of an interactive run, from the request for it to the report. -/
def serve (shell : Shell) (raw : String) : Action Session Unit := do
  .emit (.input "minish> ")
  let host ← .host
  let line := Text.trim (Text.expand (fun name => host.environment.lookup name) raw)
  if raw = "" ∨ line = "" then pure ()
  else
    let _ ← answer (← (shell.execute line).attempt)

/-- An interactive run.  The request behind the lines that are served gets an exit word, or the
    end of the input. -/
def readingAll (shell : Shell) (lines : List String) : Action Session Int := do
  let host ← .host
  let meant (raw : String) := Text.trim (Text.expand (fun name => host.environment.lookup name) raw)
  forM (lines.takeWhile fun raw => meant raw ∉ ["exit", "quit"]) (serve shell)
  .emit (.input "minish> ")
  if ∀ raw ∈ lines, meant raw ∉ ["exit", "quit"] then
    (Machine.write .standard "\n").inSession
  pure 0

/-- A run that answers one line. -/
def readingOne (shell : Shell) (lines : List String) : Action Session Int := do
  forM (lines.takeWhile (· = "")) fun _ => .emit (.input "")
  .emit (.input "")
  match lines.find? (· ≠ "") with
  | none => pure 0
  | some raw =>
    let host ← .host
    let line := Text.trim (Text.expand (fun name => host.environment.lookup name) raw)
    if line = "" ∨ line ∈ ["exit", "quit"] then pure 0
    else answer (← (shell.execute line).attempt)

/-- A whole run. -/
def reading (shell : Shell) (interactive : Bool) (lines : List String) : Action Session Int :=
  guarded shell (if interactive then readingAll shell lines else readingOne shell lines)

/-- The result of reading lines as the reference has it: what has not been asked for is left
    unread. -/
def ending (lines : List String) (r : Result Session Int) : Result Session Ending :=
  ⟨.ok ⟨r.outcome, lines.drop (r.events.countP Event.isInput)⟩, r.state, r.events⟩

end ReadLoop

/-! ## Requests for input -/

namespace Group

variable (setting : Setting)

theorem starts_unasking : Starts setting fun _ l _ => ∀ e ∈ l, e.isInput = false where
  toIsPath := .forall_mem _
  start invocation host b := by
    obtain ⟨hattempt, -⟩ := (start_spec setting invocation host b).attempt
    exact hattempt.forall_mem (fun _ => rfl) (fun _ => rfl) (fun _ => rfl) rfl fun _ => rfl
  pipe host b := by
    simp only [Action.inBlock, Action.zoom_apply, Machine.pipe_apply]
    split <;> exact List.forall_mem_singleton.mpr rfl
  close _ _ := List.forall_mem_singleton.mpr rfl

theorem tends_unasking : Tends setting fun _ l _ => ∀ e ∈ l, e.isInput = false where
  toIsPath := .forall_mem _
  log _ _ _ := List.forall_mem_singleton.mpr rfl
  reap i host b := by
    intro e he
    have htending := (tends_isTending setting).reap i host b e he
    cases e <;> first | rfl | cases htending
  terminate _ _ := List.forall_mem_singleton.mpr rfl

end Group

namespace Shell

/-- No line asks for input. -/
theorem obeys_unasking (shell : Shell) :
    shell.Obeys fun _ l _ => ∀ e ∈ l, e.isInput = false := by
  have hpath : IsPath fun (_ : Machine) l (_ : Machine) => ∀ e ∈ l, e.isInput = false :=
    .forall_mem _
  have hforeground : ∀ invocation, (Group.foreground shell.setting invocation).Keeps
      fun _ l _ => ∀ e ∈ l, e.isInput = false :=
    Group.foreground_keeps (Group.starts_unasking shell.setting)
      (Group.tends_unasking shell.setting)
  refine .of_plain hpath ?_ (fun _ _ => hforeground _) ?_ ?_
  · intro m l m' hplain e he
    have hplain := hplain.1 e he
    cases e <;> first | rfl | cases hplain
  · intro source mode target
    refine Redirect.run_keeps hpath ?_ ?_ ?_ ?_ fun _ _ => hforeground _
    · exact fun _ => List.forall_mem_singleton.mpr rfl
    · exact fun _ => List.forall_mem_singleton.mpr rfl
    · exact fun _ => List.forall_mem_singleton.mpr rfl
    · exact fun _ _ => List.forall_mem_singleton.mpr rfl
  · exact Pipeline.run_keeps (Group.starts_unasking shell.setting)
      (Group.tends_unasking shell.setting)

end Shell

namespace ReadLoop

variable {shell : Shell} {host : Host} {s : Session} {raw line request : String}
  {rest : List String} {l : List Event}

theorem dispatch_eq_answer (shell : Shell) (line : String) :
    dispatch shell line = (shell.execute line).attempt >>= answer := by
  ext host s
  simp only [dispatch, Action.bind_apply, Action.attempt_apply, Result.andThen_ok]
  cases (shell.execute line host s).outcome with
  | ok => rfl
  | error f => cases f <;> rfl

theorem dispatch_unasking (shell : Shell) (line : String) (host : Host) (s : Session) :
    ∀ e ∈ (dispatch shell line host s).events, e.isInput = false := by
  obtain ⟨-, ⟨l, hevents, hl⟩, -⟩ := dispatch_spec shell line host s
  have hexecute := (Shell.obeys_unasking shell).execute line host s
  rw [hevents]
  refine List.forall_mem_append.mpr ⟨hexecute, fun e he => ?_⟩
  obtain ⟨text, rfl⟩ := hl e he
  rfl

/-- A request for a line, what follows it without a further one, and the rest. -/
theorem ending_cons (hl : ∀ e ∈ l, e.isInput = false) (request raw : String) (rest : List String)
    (r : Result Session Int) :
    ending (raw :: rest) ((r.after l).after [.input request])
      = ((ending rest r).after l).after [.input request] := by
  have hnone : l.countP Event.isInput = 0 := List.countP_eq_zero.mpr fun e he => by simp [hl e he]
  have hcount : ((r.after l).after [.input request]).events.countP Event.isInput
      = r.events.countP Event.isInput + 1 := by
    rw [Result.events_after, Result.events_after, List.singleton_append,
      List.countP_cons_of_pos rfl, List.countP_append, hnone, Nat.zero_add]
  rw [ending, hcount, List.drop_succ_cons]
  rfl

/-- A line that ends the run leaves those behind it unread. -/
theorem ending_last (hl : ∀ e ∈ l, e.isInput = false) (request raw : String) (rest : List String)
    (outcome : Except Failure Int) (s : Session) :
    ending (raw :: rest) ⟨outcome, s, .input request :: l⟩
      = ⟨.ok ⟨outcome, rest⟩, s, .input request :: l⟩ := by
  have hend := ending_cons hl request raw rest ⟨outcome, s, []⟩
  simpa only [ending, Result.after_mk, List.append_nil, List.singleton_append, List.countP_nil,
    List.drop_zero] using hend

/-! ## Interactive runs -/

theorem serve_of_skipped (h : raw = "" ∨ prepare host raw = "") :
    serve shell raw host s = ⟨.ok (), s, [.input prompt]⟩ := by
  rw [prepare] at h
  simp only [serve, Action.bind_apply, Action.emit_apply, Action.host_apply, Result.andThen_ok,
    if_pos h]
  rfl

theorem serve_of_dispatched (h : Due host raw) :
    serve shell raw host s =
      ((dispatch shell (prepare host raw) host s).andThen fun _ s' => ⟨.ok (), s', []⟩).after
        [.input prompt] := by
  have hline : ¬ (raw = "" ∨ prepare host raw = "") := not_or.mpr ⟨h.nonempty, h.line⟩
  rw [prepare] at hline ⊢
  simp only [serve, Action.bind_apply, Action.emit_apply, Action.host_apply, Result.andThen_ok,
    if_neg hline, dispatch_eq_answer, Action.attempt_apply, Result.andThen_after, Result.after_nil]
  rfl

theorem readingAll_cons_of_exit (h : prepare host raw ∈ exitWords) :
    readingAll shell (raw :: rest) host s = ⟨.ok 0, s, [.input prompt]⟩ := by
  rw [prepare, exitWords] at h
  simp only [readingAll, Action.bind_apply, Action.host_apply, Result.andThen_ok,
    List.takeWhile_cons, List.forall_mem_cons, eq_true h, not_true, decide_false, false_and,
    if_false]
  rfl

theorem readingAll_cons (h : prepare host raw ∉ exitWords) :
    readingAll shell (raw :: rest) host s =
      (serve shell raw host s).andThen fun _ s' => readingAll shell rest host s' := by
  rw [prepare, exitWords] at h
  simp only [readingAll, Action.bind_apply, Action.host_apply, Result.andThen_ok,
    List.takeWhile_cons, List.forall_mem_cons, eq_true h, decide_true, true_and, if_true,
    List.forM_cons, Result.andThen_assoc, Result.after_nil]

theorem prepare_empty (host : Host) : prepare host "" = "" := rfl

theorem readLines_eq_readingAll (shell : Shell) (lines : List String) (host : Host)
    (s : Session) :
    readLines shell true lines host s = ending lines (readingAll shell lines host s) := by
  induction lines generalizing s with
  | nil => rfl
  | cons raw rest ih =>
    obtain ⟨r, hread, hr⟩ := readLines_cons shell true raw rest host s
    rw [hr]
    cases hread with
    | empty h =>
      subst h
      have hnot : prepare host "" ∉ exitWords := by
        rw [prepare_empty]
        decide
      rw [readingAll_cons hnot, serve_of_skipped (.inl rfl), Result.andThen_ok, ih]
      exact (ending_cons (List.forall_mem_nil _) prompt "" rest _).symm
    | exited _ h =>
      rw [readingAll_cons_of_exit h]
      exact (ending_last (List.forall_mem_nil _) prompt raw rest (.ok 0) s).symm
    | blank _ h =>
      have hnot : prepare host raw ∉ exitWords := by
        rw [h]
        decide
      rw [readingAll_cons hnot, serve_of_skipped (.inr h), Result.andThen_ok, goOn_interactive, ih]
      exact (ending_cons (List.forall_mem_nil _) prompt raw rest _).symm
    | @failed f s' l h hdue =>
      have hl := dispatch_unasking shell (prepare host raw) host s
      rw [h] at hl
      rw [readingAll_cons hdue.exits, serve_of_dispatched hdue, h]
      exact (ending_last hl prompt raw rest (.error f) s').symm
    | @dispatched status s' l h hdue =>
      have hl := dispatch_unasking shell (prepare host raw) host s
      rw [h] at hl
      rw [readingAll_cons hdue.exits, serve_of_dispatched hdue, h, goOn_interactive, ih]
      simp only [Result.andThen_after, Result.andThen_ok, Result.after_nil]
      exact (ending_cons hl prompt raw rest _).symm

/-! ## Runs that answer one line -/

theorem Due.not_ignored (h : Due host raw) :
    ¬ (prepare host raw = "" ∨ prepare host raw ∈ exitWords) :=
  not_or.mpr ⟨h.line, h.exits⟩

theorem readingOne_cons_empty (shell : Shell) (rest : List String) (host : Host) (s : Session) :
    readingOne shell ("" :: rest) host s = (readingOne shell rest host s).after [.input ""] := by
  have hfind : ("" :: rest).find? (· ≠ "") = rest.find? (· ≠ "") := rfl
  have hempty : ("" :: rest).takeWhile (· = "") = "" :: rest.takeWhile (· = "") := rfl
  simp only [readingOne, hfind, hempty, List.forM_cons, Action.bind_apply, Action.emit_apply,
    Result.andThen_ok, Result.andThen_after]

theorem readingOne_cons (hraw : raw ≠ "") :
    let ignored := prepare host raw = "" ∨ prepare host raw ∈ exitWords
    readingOne shell (raw :: rest) host s =
      ((if ignored then pure 0 else dispatch shell (prepare host raw) : Action Session Int)
        host s).after [.input ""] := by
  have hfind : (raw :: rest).find? (· ≠ "") = some raw :=
    List.find?_cons_of_pos (decide_eq_true hraw)
  have hempty : (raw :: rest).takeWhile (· = "") = [] :=
    List.takeWhile_cons_of_neg (by simpa using hraw)
  simp only [prepare, readingOne, hfind, hempty, List.forM_nil, Action.bind_apply, Action.emit_apply,
    Action.host_apply, Action.pure_apply, Result.andThen_ok, Result.after_nil, dispatch_eq_answer,
    exitWords]
  rfl

theorem readLines_eq_readingOne (shell : Shell) (lines : List String) (host : Host)
    (s : Session) :
    readLines shell false lines host s = ending lines (readingOne shell lines host s) := by
  induction lines generalizing s with
  | nil => rfl
  | cons raw rest ih =>
    obtain ⟨r, hread, hr⟩ := readLines_cons shell false raw rest host s
    rw [hr]
    cases hread with
    | empty h =>
      subst h
      rw [readingOne_cons_empty, ih]
      exact (ending_cons (List.forall_mem_nil _) "" "" rest _).symm
    | exited hraw h =>
      have hignored : prepare host raw = "" ∨ prepare host raw ∈ exitWords := .inr h
      rw [readingOne_cons hraw, if_pos hignored]
      exact (ending_last (List.forall_mem_nil _) "" raw rest (.ok 0) s).symm
    | blank hraw h =>
      have hignored : prepare host raw = "" ∨ prepare host raw ∈ exitWords := .inl h
      rw [readingOne_cons hraw, if_pos hignored, goOn_single]
      exact (ending_last (List.forall_mem_nil _) "" raw rest (.ok 0) s).symm
    | @failed f s' l h hdue =>
      have hl := dispatch_unasking shell (prepare host raw) host s
      rw [h] at hl
      rw [readingOne_cons hdue.nonempty, if_neg hdue.not_ignored, h]
      exact (ending_last hl "" raw rest (.error f) s').symm
    | @dispatched status s' l h hdue =>
      have hl := dispatch_unasking shell (prepare host raw) host s
      rw [h] at hl
      rw [readingOne_cons hdue.nonempty, if_neg hdue.not_ignored, h, goOn_single]
      simp only [Action.pure_apply, Result.after_mk, List.append_nil]
      exact (ending_last hl "" raw rest (.ok status) s').symm

/-! ## Whole runs -/

theorem readLines_outcome (shell : Shell) (interactive : Bool) (lines : List String) (host : Host)
    (s : Session) : ∃ ending, (readLines shell interactive lines host s).outcome = .ok ending := by
  cases interactive with
  | true =>
    rw [readLines_eq_readingAll]
    exact ⟨_, rfl⟩
  | false =>
    rw [readLines_eq_readingOne]
    exact ⟨_, rfl⟩

theorem restore_unasking (policy : Governor.Policy) (host : Host) (s : Session) :
    ∀ e ∈ (Governor.restore policy host s).events, e.isInput = false := by
  cases hsaved : s.governor.saved with
  | none =>
    rw [Governor.restore_apply_of_none policy host s hsaved]
    exact List.forall_mem_nil _
  | some previous =>
    have hrestore := Governor.restore_switched policy host s hsaved
    generalize Governor.restore policy host s = r at hrestore
    cases hrestore with
    | refused => exact List.forall_mem_singleton.mpr rfl
    | accepted message => exact List.forall_mem_cons.mpr ⟨rfl, List.forall_mem_singleton.mpr rfl⟩

/-- Reading lines behaves as the reference does, on every input: the same lines are dispatched
    and reported, one after the other and each in the state that those before it have left, the
    same requests for input are made, and the status is the same. -/
theorem session_eq_reading (shell : Shell) (interactive : Bool) (lines : List String)
    (host : Host) (s : Session) :
    session shell interactive lines host s
      = ending lines (reading shell interactive lines host s) := by
  have hlines : ∀ s, readLines shell interactive lines host s = ending lines
      ((if interactive then readingAll shell lines else readingOne shell lines) host s) := by
    intro s
    cases interactive with
    | true => exact readLines_eq_readingAll shell lines host s
    | false => exact readLines_eq_readingOne shell lines host s
  have hguard := Governor.guard_switched shell.policy host s
  simp only [session, reading, guarded, Action.bind_apply, Action.attempt_apply,
    Result.andThen_ok]
  generalize Governor.guard shell.policy host s = r at hguard
  cases hguard with
  | refused => rfl
  | accepted message =>
    simp only [Result.andThen_ok, Action.bind_apply, hlines, Action.ensuring,
      Action.attempt_apply]
    generalize (if interactive then readingAll shell lines else readingOne shell lines) host _ = r
    obtain ⟨outcome, s', l⟩ := r
    have hrestore := restore_unasking shell.policy host s'
    generalize hr : Governor.restore shell.policy host s' = r' at hrestore
    obtain ⟨restored, s'', l'⟩ := r'
    -- Neither the guard before the lines nor the restoring after them asks for one.
    have hnone : l'.countP Event.isInput = 0 :=
      List.countP_eq_zero.mpr fun e he => by simp [hrestore e he]
    simp only [ending, Result.andThen_ok, hr]
    cases restored <;> simp [hnone, Event.isInput]

end ReadLoop

end LineShell
