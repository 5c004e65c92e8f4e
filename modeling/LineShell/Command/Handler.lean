/-
  LineShell.Command.Handler

  What a command name stands for inside the shell.

  A name stands for a built-in command or for a script: a list of actions on
  the shell, done in order until one fails.
-/

import LineShell.Builtin
import LineShell.Command.Table

namespace LineShell

/-- One action of a script. -/
inductive ScriptAction
  /-- Writes a line and hands it on. -/
  | writeLine (text : String)
  /-- Writes a text, which stays in the buffer. -/
  | print (text : String)
  /-- Dispatches a line, with the interrupt key exposed. -/
  | execute (line : String)
  /-- Runs the tree of a line. -/
  | runLine (line : String)
  | raise (failure : Failure)
  deriving DecidableEq

/-- What a command name stands for. -/
inductive Handler
  | builtin (command : Builtin)
  | script (actions : List ScriptAction)
  deriving DecidableEq

/-- The table of a new shell: the built-in commands in the order of their definition. -/
def builtinCommands : Table Handler where
  entries := Builtin.all.map fun command => (command.name, .builtin command)

end LineShell
