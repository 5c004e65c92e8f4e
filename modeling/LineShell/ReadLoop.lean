/-
  LineShell.ReadLoop

  Running one line, and reading lines and running them.

  The interrupt key is guarded while the shell is idle, and the handler that was
  there before is restored in every case.  A failure of the shell is reported
  and becomes a status; so does an interrupt.  Any other failure ends the run.
-/

import LineShell.Shell.Basic
import LineShell.Text.Reference

namespace LineShell.ReadLoop

/-! ## One line -/

/-- The status of a line that was interrupted. -/
def interruptStatus : Int := 130

/-- Dispatches a line; reports its failure and gives its status. -/
def dispatch (shell : Shell) (line : String) : Action Session Int := do
  match ← (shell.execute line).attempt with
  | .ok () => pure 0
  | .error f =>
    match f.exitStatus?, f with
    | some status, _ =>
      .emit (.err s!"minish: {f.message}\n")
      pure status
    | none, .interrupt _ =>
      .emit (.err "\n")
      pure interruptStatus
    | none, _ => .fail f

/-- Runs an action with the interrupt key guarded, and restores the handler that
    was there before. -/
def guarded {α : Type} (shell : Shell) (body : Action Session α) : Action Session α := do
  Governor.guard shell.policy
  body.ensuring (Governor.restore shell.policy)

/-- Runs one line and gives its status.  A blank line is not dispatched. -/
def execLine (shell : Shell) (line : String) : Action Session Int :=
  let line := Text.trim line
  if line.isEmpty then pure 0 else guarded shell (dispatch shell line)

/-! ## Lines from the input -/

/-- How reading lines ended: with a status or a failure, and with the lines that
    were not asked for. -/
structure Ending where
  status : Except Failure Int
  unread : List String

/-- What an interactive run asks for lines with. -/
def prompt : String := "minish> "

/-- The lines that end the reading. -/
def exitWords : List String := ["exit", "quit"]

/-- A line as it is dispatched: references to variables replaced, and trimmed. -/
def prepare (host : Host) (line : String) : String :=
  Text.trim (Text.expand (fun name => host.environment.lookup name) line)

/-- Asks for lines and dispatches them.  An interactive run goes on to the end of
    the input; any other one handles the first line that is not empty. -/
def readLines (shell : Shell) (interactive : Bool) : List String → Action Session Ending
  | [] => do
    .emit (.input (if interactive then prompt else ""))
    if interactive then (Machine.write .standard "\n").inSession
    pure ⟨.ok 0, []⟩
  | raw :: rest => do
    .emit (.input (if interactive then prompt else ""))
    if raw.isEmpty then readLines shell interactive rest
    else
      let line := prepare (← .host) raw
      -- The words count after the values of variables have been put in.
      if line ∈ exitWords then pure ⟨.ok 0, rest⟩
      else
        let outcome ← if line.isEmpty then pure (.ok 0) else (dispatch shell line).attempt
        match outcome with
        | .error f => pure ⟨.error f, rest⟩
        | .ok status =>
          if interactive then readLines shell interactive rest else pure ⟨.ok status, rest⟩

/-- Reads lines with the interrupt key guarded. -/
def session (shell : Shell) (interactive : Bool) (lines : List String) :
    Action Session Ending := do
  match ← (Governor.guard shell.policy).attempt with
  | .error f => pure ⟨.error f, lines⟩
  | .ok () =>
    let ending ← readLines shell interactive lines
    match ← (Governor.restore shell.policy).attempt with
    | .error f => pure { ending with status := .error f }
    | .ok () => pure ending

end LineShell.ReadLoop
