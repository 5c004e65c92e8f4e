/-
  LineShell.Group.Basic

  Groups of processes with a common lifetime.

  A group has a block of actions.  Every process started in the block is a
  member, and leaving the block, in whatever way, waits for each member that has
  not been waited for.  Where the block is left by a failure, members that still
  run are terminated first.  A member that has been waited for is remembered by
  its number, so a later member of the same number counts as waited for too.
-/

import LineShell.Process
import LineShell.Setting
import LineShell.Text.Quoted

namespace LineShell

/-- The members of a group, in the order of their start, and the numbers of those
    that have been waited for. -/
structure Group where
  members : List Process := []
  reaped : List Int := []

/-- The state of a block: its group, and the machine under it. -/
structure Block where
  group : Group := {}
  machine : Machine

/-- Runs an action of the machine inside a block. -/
def Action.inBlock {α : Type} (x : Action Machine α) : Action Block α :=
  x.zoom Block.machine fun m b => { b with machine := m }

namespace Block

/-- The member at a position. -/
def member? (b : Block) (i : Nat) : Option Process := b.group.members[i]?

/-- The block with a further member. -/
def addMember (b : Block) (p : Process) : Block :=
  { b with group := { b.group with members := b.group.members ++ [p] } }

/-- The block with the member at a position changed. -/
def modifyMember (b : Block) (i : Nat) (f : Process → Process) : Block :=
  { b with group := { b.group with members := b.group.members.modify i f } }

/-- The block with a number remembered as waited for. -/
def markReaped (b : Block) (pid : Int) : Block :=
  { b with group := { b.group with reaped := b.group.reaped ++ [pid] } }

end Block

namespace Group

/-- The failure of an action on a member that the group does not have, or on the
    name of one whose argument list on record is empty. -/
def outOfRange : Failure := .fault .position "list index out of range"

/-- The failure of a wait for a member that counts as waited for although no
    status of it has been collected. -/
def noStatus : Failure :=
  .fault .sort "'<' not supported between instances of 'NoneType' and 'int'"

/-! ## Starting and waiting -/

/-- Starts a member; gives its position.  What the shell has written before goes
    out first. -/
def start (setting : Setting) (invocation : Invocation) : Action Block Nat := do
  (Machine.flush .standard).inBlock
  let p ← (Process.launch invocation setting.environment).inBlock.mapFailure
    (.claimedFor .launch invocation.program)
  -- A member before the observer is told, so that a failure of the observer cannot
  -- leave a process behind.
  let position := (← .get).group.members.length
  .modify (·.addMember p)
  .log .process s!"spawned pid {p.pid}: {Text.quotedList invocation.argv}"
  (setting.notify (.spawned p.pid invocation.argv)).inBlock
  pure position

/-- Waits for a member that has not been waited for, until a wait is not
    interrupted, and then tells the observer.  The interrupt, if there was one,
    comes out last.  A member that has been waited for is left alone. -/
def reap (setting : Setting) (i : Nat) : Action Block (Option Int) := do
  match (← .get).member? i with
  | none => .fail outOfRange
  | some p =>
    if p.pid ∈ (← .get).group.reaped then pure p.collected
    else
      let interrupted ← Process.awaitEnd p.pid p.status p.interrupts
      -- Marked before the observer is told: whatever it answers, nobody waits again.
      .modify fun b => (b.modifyMember i Process.ended).markReaped p.pid
      .log .process s!"reaped pid {p.pid} (status {p.status})"
      (setting.notify (.reaped p.pid p.args p.status)).inBlock
      if interrupted then .fail (.interrupt "") else pure (some p.status)

/-- Waits for a member; fails where its status is not zero, or missing.  The name
    that it is reported under is looked up before its status is judged. -/
def wait (setting : Setting) (i : Nat) : Action Block Unit := do
  let status? ← reap setting i
  if status? = some 0 then pure ()
  else
    match ((← .get).member? i).bind Process.program?, status? with
    | none, _ => .fail outOfRange
    | some _, none => .fail noStatus
    | some program, some status => .fail (.exitStatus program status)

/-- Terminates a member. -/
def terminate (i : Nat) : Action Block Unit := do
  match (← .get).member? i with
  | none => .fail outOfRange
  | some p =>
    .emit (.terminate p.pid)
    .modify (·.modifyMember i Process.terminated)

/-! ## Leaving the block -/

/-- Terminates the member if the block is being stopped and the member runs, and
    waits for it; a member that has been waited for is left alone.  Gives the
    interrupt of the wait, if there was one. -/
def release (setting : Setting) (stopping : Bool) (i : Nat) : Action Block (Option Failure) := do
  match (← .get).member? i with
  | none => pure none
  | some p =>
    if p.pid ∈ (← .get).group.reaped then pure none
    else
      if stopping && p.running then
        .log .process s!"terminating pid {p.pid}"
        terminate i
      match ← (reap setting i).attempt with
      | .ok _ => pure none
      | .error (.interrupt message) => pure (some (.interrupt message))
      | .error f => .fail f

/-- Releases the members at the given positions in order.  An interrupt does not
    end this, but stops the members that come after it; gives the last one. -/
def releaseAll (setting : Setting) : (stopping : Bool) → (interrupt : Option Failure) →
    List Nat → Action Block (Option Failure)
  | _, interrupt, [] => pure interrupt
  | stopping, interrupt, i :: rest => do
    match ← release setting stopping i with
    | none => releaseAll setting stopping interrupt rest
    | some f => releaseAll setting true (some f) rest

/-- Runs the actions of a block and leaves it.  A failure of the block stays what
    it is; otherwise an interrupt met while leaving comes out. -/
def closing {α : Type} (setting : Setting) (body : Action Block α) : Action Block α := do
  let outcome ← body.attempt
  let positions := List.range (← .get).group.members.length
  match outcome with
  | .error f =>
    -- The block has failed already, so an interrupt met now has nothing to add.
    let _ ← releaseAll setting true none positions
    .fail f
  | .ok a =>
    match ← releaseAll setting false none positions with
    | some f => .fail f
    | none => pure a

/-- Runs a block with a new group. -/
def within {α : Type} (setting : Setting) (body : Action Block α) : Action Machine α :=
  (closing setting body).zoom (fun m => { machine := m }) fun b _ => b.machine

/-- Starts a process, and waits for it. -/
def foreground (setting : Setting) (invocation : Invocation) : Action Machine Unit :=
  within setting do
    let position ← start setting invocation
    wait setting position

end Group

end LineShell
