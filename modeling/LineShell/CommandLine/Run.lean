/-
  LineShell.CommandLine.Run

  The program: what its arguments ask for, carried out.
-/

import LineShell.CommandLine.Request
import LineShell.ReadLoop

namespace LineShell.CommandLine

open ReadLoop

/-- The status of refused arguments. -/
def refusedStatus : Int := 2

/-- The failure of a run whose level is missing. -/
def noLevel : Failure := .fault .sort "attribute name must be string, not 'list'"

/-- Carries out a task.  A run of one line leaves all lines of the input unread. -/
def Task.carryOut (shell : Shell) (interactive : Bool) (lines : List String) :
    Task → Action Session Ending
  | .exec line => do
    let status ← (execLine shell line).attempt
    pure ⟨status, lines⟩
  | .shell => session shell interactive lines

/-- Carries out a request.  Only a task looks at the input, and it is not begun where
    the level is missing. -/
def Request.carryOut (shell : Shell) (interactive : Bool) (lines : List String) :
    Request → Action Session Ending
  | .help page => do
    (Machine.write .standard page.help).inSession
    pure ⟨.ok 0, lines⟩
  | .refused page message => do
    .emit (.err (page.refusal message))
    pure ⟨.ok refusedStatus, lines⟩
  | .run none _ => pure ⟨.error noLevel, lines⟩
  | .run (some _) task => task.carryOut shell interactive lines

/-- Whether a request asks for all diagnostics. -/
def Request.debugging : Request → Bool
  | .run level? _ => level? = some .debug
  | _ => false

/-- Runs the program with its arguments and the lines of its input, and hands on
    at the end what is left in the buffer of the standard output. -/
def run (args : List String) (interactive : Bool) (lines : List String) :
    Action Session Ending := do
  let ending ← (request args).carryOut {} interactive lines
  (Machine.flush .standard).inSession
  pure ending

/-- What the events of a run put on the standard error output. -/
def errorText (debugging : Bool) (events : List Event) : String :=
  String.join <| events.map fun
    | .err text => text
    | .log source message => if debugging then s!"DEBUG {source.name}: {message}\n" else ""
    | _ => ""

end LineShell.CommandLine
