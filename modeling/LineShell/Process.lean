/-
  LineShell.Process

  Processes: starting one, and waiting for it.
-/

import LineShell.Invocation
import LineShell.Machine.Call

namespace LineShell

/-- A process that has been started. -/
structure Process where
  pid : Int
  /-- The argument list on record. -/
  args : List String
  /-- How many waits are still to be interrupted. -/
  interrupts : Nat
  /-- Whether it is still running. -/
  running : Bool
  /-- The status that it ends with as things stand. -/
  status : Int
  /-- The status that it ends with if it is terminated. -/
  killedStatus : Int
  /-- The status that a wait has collected. -/
  collected : Option Int := none

namespace Process

/-- The process that a script describes, under the number that the system would
    give it and with the arguments it is started with. -/
def ofScript (script : ProcessScript) (nextPid : Int) (argv : List String) : Process where
  pid := script.pid?.getD nextPid
  args := script.args?.getD argv
  interrupts := script.interrupts
  running := script.running
  status := script.status
  killedStatus := script.killedStatus

/-- The name that the process is reported under, if an argument list is on record. -/
def program? (p : Process) : Option String := p.args.head?

/-- The process after it has been terminated. -/
def terminated (p : Process) : Process :=
  { p with running := false, status := p.killedStatus }

/-- The process after a wait that was not interrupted. -/
def ended (p : Process) : Process :=
  { p with interrupts := 0, running := false, collected := some p.status }

/-- Starts a process.  A null character in an argument is refused before the
    program is looked up. -/
def launch (invocation : Invocation) (environment : Option Environment) :
    Action Machine Process := do
  if invocation.argv.any Machine.hasNull then .fail .embeddedNull
  -- A refused start uses up its place in the queue just as a start does.
  let (behaviour, m) := (← .get).takeBehaviour invocation.program
  .modify fun _ => m
  match behaviour with
  | .refused f =>
    .emit (.spawnFailed invocation.argv invocation.stdin invocation.stdout)
    .fail f
  | .started script =>
    let p := ofScript script m.nextPid invocation.argv
    if script.pid?.isNone then .modify fun m => { m with nextPid := m.nextPid + 1 }
    .emit (.spawn p.pid invocation.argv invocation.stdin invocation.stdout invocation.stderr
      environment)
    pure p

/-- Waits for the process `pid`, which ends with `status`, until a wait is not
    interrupted; `interrupts` of them are.  Gives whether any was. -/
def awaitEnd {σ : Type} (pid status : Int) : (interrupts : Nat) → Action σ Bool
  | 0 => do
    .emit (.wait pid (some status))
    pure false
  | interrupts + 1 => do
    .emit (.wait pid none)
    let _ ← awaitEnd pid status interrupts
    pure true

end Process

end LineShell
