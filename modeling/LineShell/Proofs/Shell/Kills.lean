/-
  LineShell.Proofs.Shell.Kills

  Where the signals that a shell sends come from.

  A shell sends a signal only where the built-in command is carried out that does
  so, and that is only where its name is the first word of a plain command: stages of
  a pipeline and redirected commands are programs whatever their names are.  A line
  reaches its own plain commands, and through scripts those of the lines that these
  run.  Each signal comes from a command of its own among those that are reached, in
  their order, and goes to the one process whose number the first argument of the
  command denotes (`execute_kills`).
-/

import LineShell.Proofs.Builtin.Kill
import LineShell.Proofs.Shell.External
import LineShell.Proofs.Shell.Plain
import LineShell.Proofs.Shell.Traced

namespace LineShell

/-! ## The commands that a line reaches -/

/-- The plain commands in a tree, by their words. -/
def Tree.plainCommands (t : Tree) : List (List String) :=
  t.leaves.flatMap fun
    | .command _ words => [words]
    | _ => []

/-- The lines that an action of a script runs. -/
def ScriptAction.lines : ScriptAction → List String
  | .execute line | .runLine line => [line]
  | .writeLine _ | .print _ | .raise _ => []

namespace Shell

/-- The plain commands that one comes to: itself, or those of the lines that it runs if it stands
    for a script, where at most `depth` scripts may be under way. -/
def reachedBy (commands : Table Handler) : (depth : Nat) → List String → List (List String)
  | _, [] => [[]]
  | 0, words => [words]
  | depth + 1, name :: args =>
    match commands.find? name with
    | some (.script actions) =>
      (actions.flatMap ScriptAction.lines).flatMap fun line =>
        (Tree.parse line).plainCommands.flatMap (reachedBy commands depth)
    | _ => [name :: args]

/-- The plain commands that a tree comes to. -/
def reached (commands : Table Handler) (t : Tree) : List (List String) :=
  t.plainCommands.flatMap (reachedBy commands maxDepth)

variable {commands : Table Handler}

/-- Without scripts a command comes to nothing but itself. -/
theorem reachedBy_of_no_script (h : ∀ name actions, commands.find? name ≠ some (.script actions))
    (depth : Nat) (words : List String) : reachedBy commands depth words = [words] := by
  cases words with
  | nil => cases depth <;> rfl
  | cons name args =>
    cases depth with
    | zero => rfl
    | succ depth =>
      rw [reachedBy]
      split
      · next actions hscript => exact absurd hscript (h name actions)
      · rfl

theorem reachedBy_of_builtin {name : String} {command : Builtin}
    (h : commands.find? name = some (.builtin command)) (depth : Nat) (args : List String) :
    reachedBy commands depth (name :: args) = [name :: args] := by
  cases depth with
  | zero => rfl
  | succ depth => rw [reachedBy, h]

theorem reached_of_no_script (h : ∀ name actions, commands.find? name ≠ some (.script actions))
    (t : Tree) : reached commands t = t.plainCommands := by
  rw [reached, funext (reachedBy_of_no_script h maxDepth), List.flatMap_singleton']

end Shell

/-! ## The signals of one command -/

/-- The signal is sent for a command: it asks the process to end whose number the first argument
    denotes. -/
inductive SentFor : Event → List String → Prop
  | intro {text : String} {rest : List String} {pid : Int} (ok : Bool)
      (h : Text.Denotes text pid) (hpid : 1 ≤ pid ∧ pid ≤ 2147483647) :
      SentFor (.kill pid 15 ok) ("kill" :: text :: rest)

namespace Builtin

variable {host : Host}

/-- The command changes nothing, so it comes to the same inside a session. -/
theorem Killed.inSession {args : List String} {x : Action Machine Unit} {s : Session}
    (h : Killed host s.machine args (x host s.machine)) :
    Killed host s args (x.inSession host s) := by
  rw [Action.inSession, Action.zoom_apply]
  generalize x host s.machine = r at h
  cases h with
  | missing => exact .missing
  | invalid h => exact .invalid h
  | tooLarge h hpid => exact .tooLarge h hpid
  | refused h hpid hf hclaimed => exact .refused h hpid hf hclaimed
  | sent h hpid hsent => exact .sent h hpid hsent

/-- One command sends one signal at most. -/
theorem Killed.sentFor {σ : Type} {s : σ} {args : List String} {r : Result σ Unit}
    (h : Killed host s args r) :
    List.SublistForall₂ SentFor (r.events.filter Event.isKill) ["kill" :: args] := by
  cases h with
  | missing => exact .nil
  | invalid => exact .nil
  | tooLarge => exact .nil
  | refused h hpid => exact .cons (.intro false h hpid) .nil
  | sent h hpid => exact .cons (.intro true h hpid) .nil

end Builtin

namespace Shell

variable {shell : Shell} {interpret : Interpreter} {host : Host} {causes : List (List String)}

theorem spares_of_external {m m' : Machine} {l : List Event} (h : m.External l m') :
    ∀ e ∈ l, e.isKill = false := by
  intro e he
  have hown := h.events e he
  cases e <;> simp_all [Event.isKill, Event.isOwn]

/-- What sends no signals has none to be traced. -/
theorem tracing_of_spares {x : Action Machine Unit}
    (hx : x.Keeps fun _ l _ => ∀ e ∈ l, e.isKill = false) :
    x.inSession.Meets host (Tracing Event.isKill SentFor causes) := by
  refine Tracing.inSession (Tracing.of_none fun m => List.filter_eq_nil_iff.mpr fun e he => ?_)
  simp [hx host m e he]

theorem writeLine_spares (setting : Setting) (text : String) :
    (setting.writeLine text).Keeps fun _ l _ => ∀ e ∈ l, e.isKill = false := by
  intro host m
  rw [Setting.writeLine_apply]
  simp [printedLine, Event.isKill]

/-- Of the built-in commands one sends signals. -/
theorem builtin_spares {command : Builtin} (h : command ≠ .kill) (setting : Setting)
    (args : List String) (text : String) :
    (command.run setting args text).Keeps fun _ l _ => ∀ e ∈ l, e.isKill = false := by
  refine builtin_keeps_of_calls (.forall_mem _) ?_ ?_ ?_ (writeLine_spares setting) command
    (fun hkill => absurd hkill h) ?_ args text
  · exact fun _ _ _ => List.forall_mem_singleton.mpr rfl
  · intro host m
    rw [Machine.workingDirectory_apply]
    exact List.forall_mem_nil _
  · intro path host m
    rw [Machine.changeDirectory_apply]
    split
    · exact List.forall_mem_nil _
    · split <;> exact List.forall_mem_singleton.mpr rfl
  · exact fun _ args => (Group.foreground_external setting _).mono fun _ _ _ => spares_of_external

/-! ## Trees and scripts -/

section Interpreted

variable {causes : List String → List (List String)}
  (hinterpret : ∀ handler name args text, shell.commands.find? name = some handler →
    (interpret handler name args text).Meets host
      (Tracing Event.isKill SentFor (causes (name :: args))))

include hinterpret

/-- The signals of a tree come from its plain commands. -/
theorem runTree_kills (t : Tree) :
    (runTree shell interpret t).Meets host
      (Tracing Event.isKill SentFor (t.plainCommands.flatMap causes)) := by
  rw [Tree.plainCommands, List.flatMap_assoc]
  refine runTree_tracing (fun _ _ => rfl) t fun leaf hleaf => ?_
  cases leaf with
  | command text words =>
    rw [runTree]
    cases words with
    | nil => exact Tracing.of_none fun _ => rfl
    | cons name args =>
      rw [runCommand, List.flatMap_singleton]
      split
      · next handler hfind => exact hinterpret handler name args text hfind
      · exact tracing_of_spares
          ((Group.foreground_external _ _).mono fun _ _ _ => spares_of_external)
  | redirect source mode target =>
    rw [runTree]
    exact tracing_of_spares
      ((Redirect.run_external _ source mode target).mono fun _ _ _ => spares_of_external)
  | pipeline stages =>
    rw [runTree]
    exact tracing_of_spares ((Pipeline.run_keeps (Group.starts_external _)
      (Group.tends_external _) stages).mono fun _ _ _ => spares_of_external)
  | conditional groups => exact absurd hleaf (Tree.conditional_notMem_leaves t groups)

theorem executeWith_kills (line : String) :
    (executeWith shell interpret line).Meets host
      (Tracing Event.isKill SentFor ((Tree.parse line).plainCommands.flatMap causes)) := by
  refine executeWith_tracing (fun e he => ?_) line (runTree_kills hinterpret _)
  cases e <;> first | rfl | rcases he with he | he <;> cases he

/-- The signals of a script come from the plain commands of the lines that it runs. -/
theorem performAll_kills (actions : List ScriptAction) :
    (performAll shell interpret actions).Meets host (Tracing Event.isKill SentFor
      ((actions.flatMap ScriptAction.lines).flatMap fun line =>
        (Tree.parse line).plainCommands.flatMap causes)) := by
  induction actions with
  | nil => exact Tracing.of_none fun _ => rfl
  | cons action rest ih =>
    rw [performAll, List.flatMap_cons, List.flatMap_append]
    refine Tracing.bind ?_ fun _ => ih
    cases action with
    | writeLine text => exact tracing_of_spares (writeLine_spares shell.setting text)
    | print text => exact Tracing.of_none fun _ => rfl
    | execute line =>
      rw [ScriptAction.lines, List.flatMap_singleton]
      exact executeWith_kills hinterpret line
    | runLine line =>
      rw [ScriptAction.lines, List.flatMap_singleton]
      exact runTree_kills hinterpret (Tree.parse line)
    | raise f => exact Tracing.of_none fun _ => rfl

end Interpreted

/-- The command of that name sends its own signal, and any other handler sends those of the
    commands that it comes to. -/
theorem interpreter_kills
    (hkill : ∀ name, shell.commands.find? name = some (.builtin .kill) ↔ name = "kill")
    (depth : Nat) (handler : Handler) (name : String) (args : List String) (text : String)
    (hfind : shell.commands.find? name = some handler) :
    (interpreter shell depth handler name args text).Meets host
      (Tracing Event.isKill SentFor (reachedBy shell.commands depth (name :: args))) := by
  have hbuiltin : ∀ command name args text, shell.commands.find? name = some (.builtin command) →
      (command.run shell.setting args text).inSession.Meets host
        (Tracing Event.isKill SentFor [name :: args]) := by
    intro command name args text hfind
    by_cases h : command = .kill
    · subst h
      rw [(hkill name).mp hfind]
      exact Tracing.inSession fun m => (Builtin.runKill_spec args host m).sentFor
    · exact tracing_of_spares (builtin_spares h shell.setting args text)
  -- A script runs its lines with one script less that may be under way.
  induction depth generalizing handler name args text with
  | zero =>
    cases handler with
    | builtin command =>
      rw [reachedBy_of_builtin hfind]
      exact hbuiltin command name args text hfind
    | script actions => exact Tracing.of_none fun _ => rfl
  | succ depth ih =>
    cases handler with
    | builtin command =>
      rw [reachedBy_of_builtin hfind]
      exact hbuiltin command name args text hfind
    | script actions =>
      rw [reachedBy, hfind]
      have hcall : (Action.emit (.call name args text) : Action Session Unit).Meets host
          (Tracing Event.isKill SentFor []) := Tracing.of_none fun _ => rfl
      exact Tracing.bind hcall fun _ => performAll_kills ih actions

/-- Every signal that a dispatched line leads to is a request to end, to one process, and comes
    from a command of that name whose first argument denotes the number of the process.  Each
    such command sends one signal at most, and further arguments make no difference to it. -/
theorem execute_kills
    (hkill : ∀ name, shell.commands.find? name = some (.builtin .kill) ↔ name = "kill")
    (line : String) (host : Host) (s : Session) :
    let kills := (shell.execute line host s).events.filter Event.isKill
    (∀ e ∈ kills, ∃ pid ok, e = .kill pid 15 ok ∧ 1 ≤ pid ∧ pid ≤ 2147483647) ∧
      List.SublistForall₂ SentFor kills (reached shell.commands (Tree.parse line)) ∧
      ((∀ name actions, shell.commands.find? name ≠ some (.script actions)) →
        List.SublistForall₂ SentFor kills (Tree.parse line).plainCommands) ∧
      (∀ depth text args s, Builtin.Killed host s args
        (runTree shell (interpreter shell depth) (.command text ("kill" :: args)) host s)) ∧
      ∀ depth text text' arg rest,
        runTree shell (interpreter shell depth) (.command text ("kill" :: arg :: rest))
          = runTree shell (interpreter shell depth) (.command text' ["kill", arg]) := by
  intro kills
  have hfind := (hkill "kill").mpr rfl
  have htraced : List.SublistForall₂ SentFor kills (reached shell.commands (Tree.parse line)) :=
    executeWith_kills (interpreter_kills hkill maxDepth) line s
  have hrun : ∀ depth text args,
      runTree shell (interpreter shell depth) (.command text ("kill" :: args))
        = (Builtin.runKill args).inSession := by
    intro depth text args
    rw [runTree, runCommand, hfind]
    cases depth <;> rfl
  refine ⟨fun e he => ?_, htraced, fun hscripts => ?_, fun depth text args s => ?_,
    fun depth text text' arg rest => ?_⟩
  · obtain ⟨he, hkind⟩ := List.mem_filter.mp he
    obtain ⟨words, -, ⟨ok, h, hpid⟩⟩ := Tracing.exists_cause htraced he hkind
    exact ⟨_, ok, rfl, hpid⟩
  · rwa [reached_of_no_script hscripts] at htraced
  · rw [hrun]
    exact (Builtin.runKill_spec args host s.machine).inSession
  · rw [hrun, hrun]
    rfl

/-- Zero is refused, a spaced number with a sign is sent to, a pipeline starts a program of that
    name, and the script asks for a process that is not the shell's to end. -/
theorem execute_kills_script :
    let tidy : Handler := .script [.print "tidy", .execute "kill 7"]
    let commands : Table Handler := { entries := builtinCommands.entries ++ [("tidy", tidy)] }
    let shell : Shell := { commands }
    let host : Host := { targets := fun pid =>
      if pid = 12 then some none else if pid = 7 then some (some (.system 1 "no")) else none }
    let s : Session := { machine := {} }
    let line := "kill -\u0660 || kill +1_2 extra && kill 12 | kill 12 || tidy"
    let executed := shell.execute line host s
    (∀ name, shell.commands.find? name = some (.builtin .kill) ↔ name = "kill") ∧
      List.SublistForall₂ SentFor (executed.events.filter Event.isKill)
        (reached commands (Tree.parse line)) ∧
      reached commands (Tree.parse line)
        = [["kill", "-\u0660"], ["kill", "+1_2", "extra"], ["kill", "7"]] ∧
      executed.events.filter Event.isKill = [.kill 12 15 true, .kill 7 15 false] ∧
      executed.outcome = .error (.shell .process "kill: (7) no") := by
  intro tidy commands shell host s line executed
  have hkill : ∀ name, shell.commands.find? name = some (.builtin .kill) ↔ name = "kill" := by
    intro name
    constructor
    · intro hfind
      have hmem := Table.mem_entries_of_find? hfind
      simpa [shell, commands, tidy, builtinCommands, Builtin.all, Builtin.name] using hmem
    · rintro rfl
      decide
  obtain ⟨-, htraced, -⟩ := execute_kills hkill line host s
  exact ⟨hkill, htraced, by decide +kernel, by decide +kernel, by decide +kernel⟩

end Shell

end LineShell
