/-
  LineShell.Main

  The command line of the program.

  The lines of the standard input are read first.  Then the program is run on a
  machine without programs and files, and what it puts on the two outputs is
  written there in order.
-/

import LineShell.CommandLine.Run

namespace LineShell

/-- The lines of a stream up to its end, without their line feeds. -/
partial def readInput (input : IO.FS.Stream) : IO (List String) := do
  let line ← input.getLine
  if line.isEmpty then pure []
  else
    let rest ← readInput input
    pure ((line.dropEndWhile (· == '\n')).copy :: rest)

/-- Writes what an event puts on an output. -/
def showEvent (debugging : Bool) : Event → IO Unit
  | .out _ text => IO.print text
  | event => IO.eprint (CommandLine.errorText debugging [event])

end LineShell

/-- Runs the program; a failure that is not reported otherwise is written last. -/
def main (args : List String) : IO UInt32 := do
  let input ← IO.getStdin
  let lines ← LineShell.readInput input
  let r := LineShell.CommandLine.run args (← input.isTty) lines {} { machine := {} }
  let debugging := (LineShell.CommandLine.request args).debugging
  r.events.forM (LineShell.showEvent debugging)
  match r.outcome.bind LineShell.ReadLoop.Ending.status with
  | .ok status => pure status.toNat.toUInt32
  | .error f =>
    IO.eprintln f.message
    pure 1
