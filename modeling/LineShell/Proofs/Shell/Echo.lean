/-
  LineShell.Proofs.Shell.Echo

  What an echo prints.

  The message of an echo is cut off the text of the command, not put together from
  its words: after the name and one space everything belongs to it, and where another
  blank stands behind the name the blanks there are left out.  The text begins with its
  first word, as it has been trimmed, so the message is what follows the name; and it
  has the arguments as its words, since a text is trimmed and cut into words at the
  same blanks (`echoes`).

  An echo that is dispatched prints its message with a line feed and hands it on with
  whatever waited before it, and prints nothing else (`execute_echo`).
-/

import LineShell.Proofs.Governor.Calls
import LineShell.Proofs.Machine.Calm
import LineShell.Proofs.Shell.Fulfils
import LineShell.Proofs.Tree.Conserved

namespace LineShell

/-! ## The message -/

/-- What the message of an echo has to do with the text of the command and its arguments. -/
structure Echoes (text : String) (args : List String) (message : String) : Prop where
  suffix : message.toList <:+ text.toList
  words : Text.words message = args
  /-- Behind the name and a space the text is left as it is. -/
  spaced : text.toList[4]? = some ' ' → text = "echo " ++ message
  /-- Behind the name and any other blank there is none left. -/
  unspaced : text.toList[4]? ≠ some ' ' → ∀ c ∈ message.toList.head?, Text.isBlank c = false

theorem Builtin.echoMessage_of_space (rest : List Char) :
    echoMessage (String.ofList ("echo ".toList ++ rest)) = String.ofList rest := by
  simp [echoMessage]

theorem Builtin.echoMessage_of_not {rest : List Char} (h : rest.head? ≠ some ' ') :
    echoMessage (String.ofList ("echo".toList ++ rest))
      = String.ofList (rest.dropWhile Text.isBlank) := by
  cases rest with
  | nil => rfl
  | cons c rest =>
    have hc : c ≠ ' ' := by simpa using h
    simp [echoMessage, Text.trimStart, hc.symm]

/-- The message of a trimmed text whose first word is the name. -/
theorem echoes {cs : List Char} (htrimmed : cs.dropWhile Text.isBlank = cs)
    {args : List (List Char)} (hwords : Text.wordsOf cs = "echo".toList :: args) :
    Echoes (String.ofList cs) (args.map String.ofList)
      (Builtin.echoMessage (String.ofList cs)) := by
  obtain ⟨rest, rfl, rfl, hhead⟩ := Text.exists_eq_append_of_wordsOf htrimmed hwords
  by_cases hspace : rest.head? = some ' '
  · obtain ⟨rest, rfl⟩ : ∃ rest', rest = ' ' :: rest' := List.head?_eq_some_iff.mp hspace
    have hcut : "echo".toList ++ ' ' :: rest = "echo ".toList ++ rest := by simp
    rw [hcut, Builtin.echoMessage_of_space]
    refine ⟨?_, ?_, fun _ => ?_, fun h => absurd (by simp) h⟩
    · rw [String.toList_ofList, String.toList_ofList]
      exact List.suffix_append _ _
    · rw [Text.words, String.toList_ofList, Text.ignoresMargins_wordsOf.cons Text.isBlank_space]
    · rw [String.ofList_append, String.ofList_toList]
  · rw [Builtin.echoMessage_of_not hspace]
    refine ⟨?_, ?_, fun h => ?_, fun _ c hc => ?_⟩
    · rw [String.toList_ofList, String.toList_ofList]
      exact (List.dropWhile_suffix _).trans (List.suffix_append _ _)
    · -- The blanks that are left out are a margin of what follows the name.
      have hblank : ∀ c ∈ rest.takeWhile Text.isBlank, Text.isBlank c = true :=
        fun c hc => List.mem_takeWhile_imp hc
      have hsame : Text.wordsOf (rest.takeWhile Text.isBlank ++ rest.dropWhile Text.isBlank)
          = Text.wordsOf (rest.dropWhile Text.isBlank) :=
        Text.ignoresMargins_wordsOf.append_left hblank
      rw [List.takeWhile_append_dropWhile] at hsame
      rw [Text.words, String.toList_ofList, hsame]
    · refine absurd ?_ hspace
      rw [List.head?_eq_getElem?]
      simpa using h
    · rw [String.toList_ofList] at hc
      have hnot := List.head?_dropWhile_not Text.isBlank rest
      rw [hc] at hnot
      simpa using hnot

/-- The message of a line that is a plain echo. -/
theorem echoes_of_parse {line text : String} {args : List String}
    (hline : Tree.parse line = .command text ("echo" :: args)) :
    Echoes (Text.trim line) args (Builtin.echoMessage (Text.trim line)) := by
  obtain ⟨rfl, hwords⟩ := Tree.of_parse_eq_command hline
  obtain ⟨word, words, hcut, hword, rfl⟩ := List.map_eq_cons_iff.mp hwords.symm
  have hname : word = "echo".toList := by rw [← hword, String.toList_ofList]
  rw [Text.trim, String.toList_ofList, hname] at hcut
  exact echoes Text.dropWhile_trimBy hcut

/-! ## Printing it -/

/-- Whether the event moves text on its way to an output. -/
def Event.isText : Event → Bool
  | .write .. | .out .. => true
  | _ => false

theorem Event.isText_of_aside (e : Event) (he : e.isInstall = true ∨ e.isLog = true) :
    e.isText = false := by
  cases e <;> first | rfl | rcases he with he | he <;> cases he

namespace Shell

variable {shell : Shell} {line text : String} {args : List String}

theorem run_echo (hecho : shell.commands.find? "echo" = some (.builtin .echo))
    (hline : Tree.parse line = .command text ("echo" :: args)) (host : Host) (s : Session) :
    let stream := shell.setting.output
    shell.run (Tree.parse line) host s =
      ⟨.ok (), { s with machine := s.machine.setBuffer stream "" },
        printedLine stream (s.machine.buffer stream) (Builtin.echoMessage (Text.trim line))⟩ := by
  obtain ⟨rfl, -⟩ := Tree.of_parse_eq_command hline
  rw [run, hline, runTree, runCommand, hecho]
  show (shell.setting.writeLine _).inSession host s = _
  rw [Action.inSession, Action.zoom_apply, Setting.writeLine_apply]

/-- Dispatching an echo writes and hands on its message and a line feed, and nothing else but
    what waited before. -/
theorem execute_echo (hecho : shell.commands.find? "echo" = some (.builtin .echo))
    (hline : Tree.parse line = .command text ("echo" :: args)) (host : Host) (s : Session) :
    let message := Builtin.echoMessage (Text.trim line)
    let stream := shell.setting.output
    let printed := printedLine stream (s.machine.buffer stream) message
    let executed := shell.execute line host s
    let calls := s.machine.installCalls
    Echoes (Text.trim line) args message ∧
      shell.run (Tree.parse line) host s =
        ⟨.ok (), { s with machine := s.machine.setBuffer stream "" }, printed⟩ ∧
      (host.installFailures calls = none → executed.events.filter Event.isText = printed) ∧
      (host.installFailures calls = none → host.installFailures (calls + 1) = none →
        executed.outcome = .ok ()) ∧
      -- A line whose key cannot be exposed is not run.
      ∀ f, host.installFailures calls = some f →
        executed.outcome = .error f ∧ executed.events.filter Event.isText = [] := by
  intro message stream printed executed calls
  have hrun := run_echo hecho hline host
  have hexecuted : executed = _ := execute_apply shell line host s
  refine ⟨echoes_of_parse hline, hrun s, fun hexposed => ?_, fun hexposed hguarded => ?_,
    fun f hf => ?_⟩
  · rw [hexecuted, Result.events_after, List.filter_append,
      Governor.filter_events_exposed Event.isText_of_aside, if_pos hexposed, hrun]
    rfl
  · -- Writing calls for no handler, so the guard makes the next call after the expose.
    have hcalls := (Machine.undisturbed_setBuffer
      (Governor.exposedSession shell.policy s).machine stream "").installCalls
    obtain ⟨_, _, hrun⟩ := Governor.exposed_apply_of_guarded hexposed
      (hrun (Governor.exposedSession shell.policy s)) ((congrArg _ hcalls).trans hguarded)
    rw [hexecuted, hrun]
    rfl
  · rw [hexecuted, Governor.exposed_apply_of_unexposed hf]
    exact ⟨rfl, rfl⟩

/-- The blanks around the line, behind the name and inside the message may be any. -/
theorem execute_echo_blanks :
    let line := "\u2003echo\u3000\t a \u0085b\u00A0"
    let trimmed := "echo\u3000\t a \u0085b"
    let host : Host := {}
    let s : Session := { machine := { standardBuffer := "> " } }
    let message := "a \u0085b"
    let executed := Shell.execute {} line host s
    Text.trim line = trimmed ∧ Echoes trimmed ["a", "b"] message ∧
      executed.events.filter Event.isText
        = [.write .standard "a \u0085b\n", .out .standard "> a \u0085b\n"] ∧
      executed.outcome = .ok () := by
  intro line trimmed host s message executed
  have hline : Tree.parse "\u2003echo\u3000\t a \u0085b\u00A0"
      = .command "echo\u3000\t a \u0085b" ["echo", "a", "b"] := by with_unfolding_all rfl
  have hecho : ({} : Shell).commands.find? "echo" = some (.builtin .echo) := by decide
  obtain ⟨hechoes, -, htext, hok, -⟩ := execute_echo hecho hline host s
  have htrim : Text.trim line = trimmed := by decide +kernel
  have hmessage : Builtin.echoMessage trimmed = message := by decide +kernel
  rw [htrim, hmessage] at hechoes htext
  exact ⟨htrim, hechoes, htext rfl, hok rfl rfl⟩

end Shell

end LineShell
