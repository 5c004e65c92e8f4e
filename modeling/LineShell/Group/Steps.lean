/-
  LineShell.Group.Steps

  Sequences of steps in the block of a group, with a record of each step.

  The failure of a step is recorded and the next one follows, unless the step is
  one that leaves the block when it fails.
-/

import LineShell.Group.Basic

namespace LineShell.Group

/-- What a step does to the group.  A negative position counts from the last member
    on, which has the position -1. -/
inductive Operation
  | start (invocation : Invocation)
  | wait (position : Int)
  | terminate (position : Int)
  | raise (failure : Failure)

/-- One step. -/
structure Step where
  operation : Operation
  /-- Whether a failure leaves the block. -/
  leaves : Bool := false

/-- The place in the order of start that a position stands for. -/
def placeOf (position : Int) : Action Block Nat := do
  let count := (← .get).group.members.length
  let place := if position < 0 then position + count else position
  if 0 ≤ place ∧ place < count then pure place.toNat else .fail outOfRange

/-- Carries the operation out; a start gives the number of the process. -/
def Operation.action (setting : Setting) : Operation → Action Block (Option Int)
  | start invocation => do
    let position ← Group.start setting invocation
    pure (((← .get).member? position).map Process.pid)
  | wait position => do
    Group.wait setting (← placeOf position)
    pure none
  | terminate position => do
    Group.terminate (← placeOf position)
    pure none
  | raise f => .fail f

/-- Carries a step out; one that may leave the block gives nothing. -/
def Step.action (setting : Setting) (step : Step) : Action Block (Option Int) := do
  let pid? ← step.operation.action setting
  pure (if step.leaves then none else pid?)

/-- The results of the steps up to the one that leaves the block, and the result of
    what is left of the block. -/
def runSteps (setting : Setting) (host : Host) :
    List Step → Block → List (Result Block (Option Int)) × Result Block Unit
  | [], b => ([], ⟨.ok (), b, []⟩)
  | step :: rest, b =>
    let r := step.action setting host b
    match r.outcome, step.leaves with
    | .error f, true => ([], ⟨.error f, r.state, r.events⟩)
    | _, _ =>
      let (records, last) := runSteps setting host rest r.state
      (r :: records, last)

/-- The course of a whole block: the records of its steps, and the result of
    leaving it, with the events since the last record. -/
structure Course where
  records : List (Result Block (Option Int))
  left : Result Block Unit

/-- Runs the steps of a block with a new group, and leaves it. -/
def runBlock (setting : Setting) (steps : List Step) (host : Host) (m : Machine) : Course :=
  let start : Block := { machine := m }
  { records := (runSteps setting host steps start).1
    left := closing setting (fun host b => (runSteps setting host steps b).2) host start }

end LineShell.Group
