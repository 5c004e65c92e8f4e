/-
  LineShell.Machine.Basic

  The system that command lines run on.

  A `Host` is what stays the same for a whole run: the answers that the system
  gives to the calls of the shell.  A `Machine` is what the calls change.  How a
  program behaves is laid down per start: a program has a queue of behaviours,
  each start takes the first, and the last one stays.
-/

import LineShell.Event
import LineShell.Failure

namespace LineShell

/-- How a process behaves once it has been started. -/
structure ProcessScript where
  /-- The status that it ends with. -/
  status : Int := 0
  /-- Whether it is still running when it is looked at. -/
  running : Bool := false
  /-- The status that it ends with once it has been terminated. -/
  killedStatus : Int := -15
  /-- How many waits are interrupted before one is not. -/
  interrupts : Nat := 0
  /-- Its number, where the system is not to choose one. -/
  pid? : Option Int := none
  /-- The argument list on record, where it is not the one it was started with. -/
  args? : Option (List String) := none

/-- What one start of a program leads to. -/
inductive Behaviour
  | refused (failure : Failure)
  | started (script : ProcessScript)

/-- The answers of the system that do not change during a run. -/
structure Host where
  /-- Where a change of directory leads, or how it fails; other paths do not exist. -/
  directories : String → Option (Except Failure String) := fun _ => none
  /-- How asking for the working directory fails. -/
  cwdFailure : Option Failure := none
  /-- How opening a path fails. -/
  openFailures : String → Option Failure := fun _ => none
  /-- The processes that a signal can be sent to, and how that fails. -/
  targets : Int → Option (Option Failure) := fun _ => none
  /-- How a call for a pipe fails, by its position among these calls. -/
  pipeFailures : Nat → Option Failure := fun _ => none
  /-- How putting a handler in place fails, by its position among these calls. -/
  installFailures : Nat → Option Failure := fun _ => none
  /-- The variables of the shell's own process. -/
  environment : Environment := []

/-- The state of the system. -/
structure Machine where
  /-- The behaviours still to come of each program. -/
  programs : String → List Behaviour := fun _ => []
  /-- The number of the next process that has none of its own. -/
  nextPid : Int := 101
  /-- How many pipes have been asked for. -/
  pipeCalls : Nat := 0
  /-- The read end of the next pipe; the write end is one above it. -/
  nextDescriptor : Descriptor := 10
  /-- The working directory. -/
  cwd : String := "/w"
  /-- The files that exist. -/
  files : List String := []
  /-- The handler of the interrupt signal. -/
  handler : Signal.Handler := .raiseInterrupt
  /-- How many times a handler was to be put in place. -/
  installCalls : Nat := 0
  /-- How many times a process observer has been called. -/
  hookCalls : Nat := 0
  /-- Text written to the standard output and not flushed. -/
  standardBuffer : String := ""
  /-- Text written to the shell's own output and not flushed. -/
  customBuffer : String := ""

namespace Machine

/-- The text that waits for a flush of the stream. -/
def buffer (m : Machine) : OutputStream → String
  | .standard => m.standardBuffer
  | .custom => m.customBuffer

/-- The machine with other text waiting for a flush of the stream. -/
def setBuffer (m : Machine) (stream : OutputStream) (text : String) : Machine :=
  match stream with
  | .standard => { m with standardBuffer := text }
  | .custom => { m with customBuffer := text }

/-- What the next start of a program leads to, and the machine without it in the
    queue of the program.  A program without a queue does not exist. -/
def takeBehaviour (m : Machine) (program : String) : Behaviour × Machine :=
  match m.programs program with
  | [] => (.refused .noSuchFile, m)
  | [last] => (last, m)
  | next :: later =>
    (next, { m with programs := fun p => if p = program then later else m.programs p })

end Machine

end LineShell
