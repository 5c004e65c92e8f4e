/-
  LineShell.Setting

  What is settled for everything that a shell runs: the environment of the
  processes, the observer that is told of them, and where output goes.
-/

import LineShell.Machine.Call

namespace LineShell

/-- A process observer: how it fails, by the position of the call and by what it
    is told. -/
abbrev Hook := Nat → ProcessEvent → Option Failure

/-- What holds for a whole shell. -/
structure Setting where
  /-- The variables that processes are started with, or `none` where they inherit. -/
  environment : Option Environment := none
  hook : Option Hook := none
  output : OutputStream := .standard

namespace Setting

/-! ## Observer and environment -/

/-- Tells the observer, if there is one. -/
def notify (setting : Setting) (event : ProcessEvent) : Action Machine Unit :=
  match setting.hook with
  | none => pure ()
  | some hook => do
    let calls := (← .get).hookCalls
    .modify fun m => { m with hookCalls := calls + 1 }
    .emit (.hook event)
    match hook calls event with
    | none => pure ()
    | some f => .fail f

/-- The variables that the shell itself sees: those of its processes, or those of
    its own process where they inherit. -/
def visible (setting : Setting) (host : Host) : Environment :=
  setting.environment.getD host.environment

/-! ## Output -/

/-- Writes a text to the output of the shell; it stays in the buffer. -/
def print (setting : Setting) (text : String) : Action Machine Unit :=
  Machine.write setting.output text

/-- Writes a line to the output of the shell and hands the buffer on. -/
def writeLine (setting : Setting) (text : String) : Action Machine Unit := do
  setting.print (text ++ "\n")
  Machine.flush setting.output

end Setting

end LineShell
