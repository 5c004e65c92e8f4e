/-
  LineShell.Pipeline

  Programs connected by pipes.

  All stages are started before any is waited for, each with the read end of the
  pipe before it and the write end of the pipe after it.  The shell keeps no end
  of a pipe open: once the start of a stage has been attempted, the ends that
  were meant for it are closed.  The stages are waited for in order, and the
  first that fails is the failure of the pipeline.
-/

import LineShell.Group.Basic

namespace LineShell.Pipeline

/-- The failure of a pipeline with a stage that names no program. -/
def emptyStage : Failure := .shell .argument "empty command in pipeline"

/-- The stream that an end of a pipe is for a process. -/
def streamOf : Option Descriptor → Stream
  | none => .inherited
  | some fd => .descriptor fd

/-- Closes the end of a pipe, where there is one. -/
def closeEnd {σ : Type} : Option Descriptor → Action σ Unit
  | none => pure ()
  | some fd => Machine.close fd

/-- The pipe after the stage at a position, its read end first.  A failure of the
    system belongs to the stage. -/
def openPipe (index : Nat) : Action Block (Descriptor × Descriptor) :=
  Machine.pipe.inBlock.mapFailure fun f =>
    if f.systemReason?.isSome then .stage index f else f

/-- The failure of a start as the pipeline reports it: a program that could not be
    launched is the failure of its stage. -/
def startFailure (index : Nat) (f : Failure) : Failure :=
  match f with
  | .shell .launch _ => .stage index f
  | _ => f

/-- Starts the stages from a position on, the first of them with the given read
    end.  The read end is closed here in every case. -/
def startStages (setting : Setting) : (index : Nat) → (readEnd : Option Descriptor) →
    List Invocation → Action Block Unit
  | _, readEnd, [] => closeEnd readEnd
  | index, readEnd, stage :: rest => do
    -- Nothing has been made for this stage yet: only its input is ours to close.
    let (nextRead, writeEnd) ←
      if rest.isEmpty then pure (none, none)
      else (do
        let (r, w) ← openPipe index
        pure (some r, some w)).onFailure (closeEnd readEnd)
    let connected := { stage with stdin := streamOf readEnd, stdout := streamOf writeEnd }
    let started := (Group.start setting connected).mapFailure (startFailure index)
    -- The processes hold copies of their own.  Ours would keep the next stage from
    -- ever seeing the end of its input.
    let _ ← (started.ensuring do
      closeEnd readEnd
      closeEnd writeEnd).onFailure (closeEnd nextRead)
    startStages setting (index + 1) nextRead rest

/-- Waits for the stages at the given positions in order; gives the first failure,
    `first` being one met before. -/
def waitStages (setting : Setting) : (first : Option Failure) → List Nat →
    Action Block (Option Failure)
  | first, [] => pure first
  | first, index :: rest => do
    match ← (Group.wait setting index).attempt with
    | .ok () => waitStages setting first rest
    -- A later stage may have failed only because an earlier one did.
    | .error f@(.exitStatus ..) => waitStages setting (first <|> some (.stage index f)) rest
    | .error f => .fail f

/-- Starts all stages, then waits for all. -/
def runStages (setting : Setting) (stages : List Invocation) : Action Block Unit := do
  startStages setting 0 none stages
  .log .pipeline s!"pipeline started {stages.length} stage(s)"
  match ← waitStages setting none (List.range stages.length) with
  | none => pure ()
  | some f => .fail f

/-- Runs a pipeline.  One with an empty stage is refused before anything else. -/
def run (setting : Setting) (stages : List (List String)) : Action Machine Unit :=
  match stages.mapM Invocation.ofWords with
  | .error _ => .fail emptyStage
  | .ok invocations => Group.within setting (runStages setting invocations)

end LineShell.Pipeline
