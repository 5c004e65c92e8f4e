/-
  LineShell.Invocation

  What is to be started: a program with its arguments and its streams.
-/

import LineShell.Event
import LineShell.Failure

namespace LineShell

/-- A program with its arguments and its three streams. -/
structure Invocation where
  program : String
  args : List String := []
  stdin : Stream := .inherited
  stdout : Stream := .inherited
  stderr : Stream := .inherited
  deriving DecidableEq

namespace Invocation

/-- The failure of a command line that names no program. -/
def missingCommand : Failure := .shell .argument "missing command"

/-- The invocation that words spell: the first is the program. -/
def ofWords : List String → Except Failure Invocation
  | [] => .error missingCommand
  | program :: args => .ok { program, args }

/-- The program and its arguments. -/
def argv (i : Invocation) : List String := i.program :: i.args

end Invocation

end LineShell
