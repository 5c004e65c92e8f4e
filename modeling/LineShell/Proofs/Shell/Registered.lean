/-
  LineShell.Proofs.Shell.Registered

  What commands a shell has after any number of registrations.

  A new shell has the built-in commands.  A registration under a name that is taken is
  refused unless it says that it replaces what is there, and then the shell is as it was.
  So the commands are the built-in ones, in their order, and behind them the others that
  have been accepted, in the order in which they first were, and each name stands for what
  was accepted last under it (`foldl_registered`).  A plain command of that name is handed
  to its handler, once, with the other words and the trimmed line, whatever the handlers do.
-/

import LineShell.Proofs.Command.Table
import LineShell.Proofs.Tree.Conserved
import LineShell.Shell.Steps

namespace LineShell.Shell

open Table (Registration)

/-- The shell after a registration; one that is refused changes nothing. -/
def registered (shell : Shell) (r : Registration Handler) : Shell :=
  match shell.register r.name r.entry r.replace with
  | .ok shell => shell
  | .error _ => shell

variable {shell : Shell}

theorem register_eq_error_iff {name : String} {handler : Handler} {replace : Bool} {f : Failure} :
    shell.register name handler replace = .error f ↔
      (name ∈ shell.commands.names ∧ replace = false) ∧ f = Table.alreadyRegistered name := by
  rw [register, ← Table.register_eq_error_iff]
  cases shell.commands.register name handler replace <;> simp [Except.map]

/-- Registrations put the accepted entries into the table and leave the rest of the shell. -/
theorem foldl_registered (shell : Shell) (rs : List (Registration Handler)) :
    rs.foldl registered shell =
      { shell with commands := shell.commands.insertAll (shell.commands.accepted rs) } := by
  induction rs generalizing shell with
  | nil => rfl
  | cons r rest ih =>
    rw [List.foldl_cons, ih, registered, register, Table.accepted]
    cases h : shell.commands.register r.name r.entry r.replace with
    | error f => rfl
    | ok commands =>
      rw [Table.eq_insert_of_register h]
      rfl

/-- What a shell is that was new before the registrations. -/
structure Registrations (setting : Setting) (policy : Governor.Policy)
    (rs : List (Registration Handler)) (shell : Shell) : Prop where
  /-- A further registration is refused for this reason and no other, -/
  refused : ∀ name handler replace f, shell.register name handler replace = .error f ↔
    (name ∈ shell.commands.names ∧ replace = false) ∧
      f = .fault .value s!"built-in {Text.quoted name} is already registered"
  /-- and then it changes nothing. -/
  unchanged : ∀ name handler, name ∈ shell.commands.names →
    shell.registered ⟨name, handler, false⟩ = shell
  /-- A step that registers a script is such a registration. -/
  next : ∀ name actions replace, (Step.register name actions replace).next shell =
    shell.registered ⟨name, .script actions, replace⟩
  setting : shell.setting = setting
  policy : shell.policy = policy
  names : shell.commands.names = Builtin.all.map Builtin.name ++
    (((builtinCommands.accepted rs).map Prod.fst).filter
      (· ∉ Builtin.all.map Builtin.name)).eraseDups
  nodup : shell.commands.names.Nodup
  handlers : ∀ name, shell.commands.find? name =
    ((builtinCommands.accepted rs).reverse.lookup name).or (builtinCommands.find? name)
  /-- Whatever handlers do, the one of the name is asked to do it, with the other words of the
      line and the line without the blanks around it. -/
  called : ∀ line text name args handler, Tree.parse line = .command text (name :: args) →
    shell.commands.find? name = some handler →
    ∀ interpret, runTree shell interpret (Tree.parse line)
      = interpret handler name args (Text.trim line)
  /-- A script is called, and does its actions. -/
  scripts : ∀ line text name args actions, Tree.parse line = .command text (name :: args) →
    shell.commands.find? name = some (.script actions) →
    ∀ host s, shell.run (Tree.parse line) host s =
      (performAll shell (interpreter shell (maxDepth - 1)) actions host s).after
        [.call name args (Text.trim line)]

/-- After any registrations on a new shell, and any definitions in a new table, each name is there
    once, where it was first put: in a shell with the handler that was accepted last, in a table of
    definitions with the first. -/
theorem registrations_and_definitions (setting : Setting) (policy : Governor.Policy)
    (rs : List (Registration Handler)) :
    Registrations setting policy rs (rs.foldl registered { setting, policy }) ∧
      builtinCommands =
        Table.defineEach {} (Builtin.all.map fun command => (command.name, .builtin command)) ∧
      ∀ (α : Type) (definitions : List (String × α)),
        Table.Defined definitions (Table.defineEach {} definitions) := by
  have hdistinct : builtinCommands.names.Nodup := by decide
  have hcalled : ∀ (shell : Shell) line text name args handler,
      Tree.parse line = .command text (name :: args) →
      shell.commands.find? name = some handler → ∀ interpret,
      runTree shell interpret (Tree.parse line) = interpret handler name args (Text.trim line) := by
    intro shell line text name args handler hline hfind interpret
    obtain ⟨rfl, -⟩ := Tree.of_parse_eq_command hline
    rw [hline, runTree, runCommand, hfind]
  refine ⟨?_, rfl, fun α => Table.defineEach_defined⟩
  rw [foldl_registered]
  exact {
    refused := fun _ _ _ _ => register_eq_error_iff
    unchanged := fun name handler h => by
      rw [registered, register_eq_error_iff.mpr ⟨⟨h, rfl⟩, rfl⟩]
    next := fun _ _ _ => rfl
    setting := rfl
    policy := rfl
    names := Table.names_insertAll builtinCommands _
    nodup := Table.nodup_names_insertAll hdistinct _
    handlers := Table.find?_insertAll builtinCommands _
    called := hcalled _
    scripts := fun line text name args actions hline hfind host s => by
      rw [run, hcalled _ line text name args _ hline hfind]
      rfl }

/-- A name of its own, one that is taken, and both of them with handlers in the place of others. -/
example :
    let rs : List (Registration Handler) := [⟨"hi", .script [.print "a"], false⟩,
      ⟨"cd", .script [], false⟩, ⟨"cd", .builtin .pwd, true⟩, ⟨"hi", .script [.print "b"], true⟩]
    let commands := (rs.foldl registered {}).commands
    commands.names = ["pwd", "cd", "kill", "ps", "echo", "hi"] ∧
      commands.find? "cd" = some (.builtin .pwd) ∧
      commands.find? "hi" = some (.script [.print "b"]) := by decide

end LineShell.Shell
