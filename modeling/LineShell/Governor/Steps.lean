/-
  LineShell.Governor.Steps

  Sequences of steps of a governor, with a record of each step.

  A step that fails is recorded and the next one follows.  A block is run
  exposed; a failure raised in it leaves it, and is recorded when the block has
  been left.  A failure raised outside every block ends the sequence.
-/

import LineShell.Governor.Switch

namespace LineShell.Governor

/-- One step. -/
inductive Step
  | guard
  | expose
  | restore
  /-- Steps that are run exposed. -/
  | block (steps : List Step)
  /-- Leaves the block with a failure. -/
  | raise (failure : Failure)

/-- What a record is of: a step, or one of the two ends of a block. -/
inductive Moment
  | guard
  | expose
  | restore
  | enter
  | leave
  deriving DecidableEq

/-- The record of a moment: what came out, the session after it, and the events
    since the record before. -/
structure Record where
  moment : Moment
  result : Result Session Unit

/-- What running steps comes to: the records, the session at the end, and the
    failure that was raised, if one was. -/
structure Course where
  records : List Record
  session : Session
  raised : Option Failure := none

/-- The course of a single action whose failure is caught. -/
def Course.single (moment : Moment) (r : Result Session Unit) : Course :=
  { records := [⟨moment, r⟩], session := r.state }

/-- An action that ends with the failure that was raised, if one was. -/
def reraise : Option Failure → Action Session Unit
  | none => pure ()
  | some f => .fail f

mutual

/-- Runs one step. -/
def runStep (policy : Policy) (host : Host) : Step → Session → Course
  | .guard, s => .single .guard (guard policy host s)
  | .expose, s => .single .expose (expose policy host s)
  | .restore, s => .single .restore (restore policy host s)
  | .block steps, s =>
    let entered := expose policy host s
    match entered.outcome with
    | .error _ => .single .leave entered
    | .ok () =>
      let inside := runSteps policy host steps entered.state
      let left := (reraise inside.raised).ensuring (guard policy) host inside.session
      { records := ⟨.enter, entered⟩ :: (inside.records ++ [⟨.leave, left⟩])
        session := left.state }
  | .raise f, s => { records := [], session := s, raised := some f }

/-- Runs steps in order until a failure is raised. -/
def runSteps (policy : Policy) (host : Host) : List Step → Session → Course
  | [], s => { records := [], session := s }
  | step :: rest, s =>
    let first := runStep policy host step s
    match first.raised with
    | some _ => first
    | none =>
      let later := runSteps policy host rest first.session
      { later with records := first.records ++ later.records }

end

end LineShell.Governor
