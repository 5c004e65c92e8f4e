/-
  LineShell.Shell.Steps

  Sequences of steps on one shell, with a record of each step.

  A step that fails is recorded and the next one follows.  Registering a command
  changes the shell for the steps that come after it.
-/

import LineShell.Shell.Basic

namespace LineShell.Shell

/-- One step. -/
inductive Step
  | execute (line : String)
  | run (tree : Tree)
  | guard
  | expose
  | restore
  | writeLine (text : String)
  | print (text : String)
  | register (name : String) (actions : List ScriptAction) (replace : Bool)

/-- The shell with a script registered under a name, or why it is not. -/
def register (shell : Shell) (name : String) (handler : Handler) (replace : Bool) :
    Except Failure Shell :=
  (shell.commands.register name handler replace).map fun commands => { shell with commands }

/-- The shell after a step; only a registration that is accepted changes it. -/
def Step.next (shell : Shell) : Step → Shell
  | register name actions replace =>
    match shell.register name (.script actions) replace with
    | .ok shell => shell
    | .error _ => shell
  | _ => shell

/-- Does a step; a registration gives the names in the table after it. -/
def Step.action (shell : Shell) : Step → Action Session (Option (List String))
  | execute line => do
    shell.execute line
    pure none
  | run tree => do
    shell.run tree
    pure none
  | guard => do
    Governor.guard shell.policy
    pure none
  | expose => do
    Governor.expose shell.policy
    pure none
  | restore => do
    Governor.restore shell.policy
    pure none
  | writeLine text => do
    (shell.setting.writeLine text).inSession
    pure none
  | print text => do
    (shell.setting.print text).inSession
    pure none
  | register name actions replace =>
    match shell.register name (.script actions) replace with
    | .ok shell => pure (some shell.commands.names)
    | .error f => .fail f

/-- The results of steps done in order; the last state is that of the last result. -/
def runSteps (host : Host) :
    Shell → Session → List Step → List (Result Session (Option (List String)))
  | _, _, [] => []
  | shell, s, step :: rest =>
    let r := step.action shell host s
    r :: runSteps host (step.next shell) r.state rest

end LineShell.Shell
