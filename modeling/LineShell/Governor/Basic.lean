/-
  LineShell.Governor.Basic

  What the interrupt key does while the shell runs.

  A governor has two modes.  Guarded, the signal is ignored, so an idle shell
  survives it; exposed, a handler of the governor's choice is in place.  The
  handler that was there before the first guard is kept and can be restored.  A
  step that the system refuses changes nothing.
-/

import LineShell.Action.Basic

namespace LineShell

/-- The two modes of a governor. -/
inductive Governor.Mode
  | guarded
  | exposed
  deriving DecidableEq

/-- The name of a mode in diagnostics. -/
def Governor.Mode.name : Governor.Mode → String
  | .guarded => "guarded"
  | .exposed => "exposed"

/-- The state of a governor. -/
structure Governor where
  /-- The handler to be restored. -/
  saved : Option Signal.Handler := none
  mode : Option Governor.Mode := none
  /-- The modes entered so far. -/
  transitions : List Governor.Mode := []
  deriving DecidableEq

/-- Which signal a governor governs, and the handler of its exposed mode. -/
structure Governor.Policy where
  signum : Int := Signal.interrupt
  exposedHandler : Signal.Handler := .raiseInterrupt

/-- A machine together with a governor of one of its signals. -/
structure Session where
  machine : Machine
  governor : Governor := {}

/-- Runs an action of the machine inside a session. -/
def Action.inSession {α : Type} (x : Action Machine α) : Action Session α :=
  x.zoom Session.machine fun m s => { s with machine := m }

end LineShell
