/-
  LineShell.Governor.Switch

  The steps of a governor, and blocks that are run exposed.
-/

import LineShell.Governor.Basic
import LineShell.Machine.Call

namespace LineShell.Governor

/-- The governor after it has entered a mode. -/
def enter (g : Governor) (mode : Mode) : Governor :=
  { g with mode := some mode, transitions := g.transitions ++ [mode] }

/-- Changes the governor of a session. -/
def modify (f : Governor → Governor) : Action Session Unit :=
  .modify fun s => { s with governor := f s.governor }

/-- Ignores the signal from now on.  The first guard keeps the handler that it
    replaces. -/
def guard (policy : Policy) : Action Session Unit := do
  let previous ← (Machine.install policy.signum .ignore).inSession
  -- A later guard would find the governor's own handler, which is not to be restored.
  modify fun g => { g with saved := some (g.saved.getD previous) }.enter .guarded
  .log .signals s!"signal {policy.signum} -> {Mode.guarded.name}"

/-- Puts the handler of the exposed mode in place. -/
def expose (policy : Policy) : Action Session Unit := do
  let _ ← (Machine.install policy.signum policy.exposedHandler).inSession
  modify fun g => g.enter .exposed
  .log .signals s!"signal {policy.signum} -> {Mode.exposed.name}"

/-- Puts the handler in place that was there before the first guard, if there has
    been a guard since the last time. -/
def restore (policy : Policy) : Action Session Unit := do
  match (← .get).governor.saved with
  | none => pure ()
  | some previous =>
    let _ ← (Machine.install policy.signum previous).inSession
    modify fun g => { g with saved := none, mode := none }
    .log .signals s!"signal {policy.signum} handler restored"

/-- Runs an action exposed, and guards again whatever came of it. -/
def exposed {α : Type} (policy : Policy) (body : Action Session α) : Action Session α := do
  expose policy
  body.ensuring (guard policy)

end LineShell.Governor
