/-
  LineShell.Proofs.Group.Tends

  Relations that tending the members of a group keeps.

  After the last start the members are only tended: waited for, terminated, and
  waited for again while the group is left.  A path relation that a wait for one
  member keeps, and the termination of a member that has not been waited for, is
  kept by all of it.  With the starts, and the pipes between them, it is kept by
  all that happens in a group.
-/

import LineShell.Pipeline
import LineShell.Proofs.Action.Keeps
import LineShell.Proofs.Group.Inversion

namespace LineShell

namespace Group

variable {α β : Type} {setting : Setting} {R : Block → List Event → Block → Prop}

/-- Kept by what is done with members that have been started. -/
structure Tends (setting : Setting) (R : Block → List Event → Block → Prop) : Prop
    extends IsPath R where
  log : ∀ b source message, R b [.log source message] b
  reap : ∀ i, (Group.reap setting i).Keeps R
  terminate : ∀ {b i p}, b.member? i = some p → p.pid ∉ b.group.reaped →
    R b [.terminate p.pid] (b.modifyMember i Process.terminated)

namespace Tends

variable (h : Tends setting R)

include h

theorem wait (i : Nat) : (Group.wait setting i).Keeps R := by
  refine .bind h.toIsPath (h.reap i) fun status? => ?_
  split
  · exact .pure h.toIsPath ()
  · refine .bind h.toIsPath (.get h.toIsPath) fun b => ?_
    split <;> exact .fail h.toIsPath _

theorem settle (i : Nat) : (Group.settle setting i).Keeps R := by
  refine .bind h.toIsPath (h.reap i).attempt fun outcome => ?_
  split
  · exact .pure h.toIsPath _
  · exact .pure h.toIsPath _
  · exact .fail h.toIsPath _

theorem release (stopping : Bool) (i : Nat) : (Group.release setting stopping i).Keeps R := by
  intro host b
  have hspec := release_spec setting stopping i host b
  generalize Group.release setting stopping i host b = r at hspec
  cases hspec with
  | absent => exact h.nil b
  | again => exact h.nil b
  | waited => exact h.settle i host b
  | stopped message hp hlive =>
    -- The member is still to be waited for, so it may be terminated.
    have hstop := h.append (h.log b .process message) (h.terminate hp hlive)
    exact h.append hstop (h.settle i host (b.modifyMember i Process.terminated))

theorem releaseAll (positions : List Nat) (stopping : Bool) (interrupt : Option Failure) :
    (Group.releaseAll setting stopping interrupt positions).Keeps R := by
  induction positions generalizing stopping interrupt with
  | nil => exact .pure h.toIsPath interrupt
  | cons i rest ih =>
    refine .bind h.toIsPath (h.release stopping i) fun found => ?_
    cases found with
    | none => exact ih stopping interrupt
    | some f => exact ih true (some f)

end Tends

/-! ## Leaving the block -/

/-- What is done once the actions of a block have come to an outcome. -/
def leave {α : Type} (setting : Setting) (outcome : Except Failure α) : Action Block α := do
  let positions := List.range (← .get).group.members.length
  match outcome with
  | .error f =>
    let _ ← releaseAll setting true none positions
    .fail f
  | .ok a =>
    match ← releaseAll setting false none positions with
    | some f => .fail f
    | none => pure a

/-- A block that has failed stays failed. -/
theorem leave_error (setting : Setting) (f : Failure) (host : Host) (b : Block) :
    ∃ f', (leave setting (.error f : Except Failure α) host b).outcome = .error f' := by
  simp only [leave, Action.bind_apply, Action.get_apply, Result.andThen_ok]
  generalize releaseAll setting true none _ host b = r
  obtain ⟨outcome | found, b', l⟩ := r
  · exact ⟨outcome, rfl⟩
  · exact ⟨f, rfl⟩

/-- The block first, then the leaving, whatever came of the block. -/
theorem closing_apply (setting : Setting) (body : Action Block α) (host : Host) (b : Block) :
    closing setting body host b =
      (leave setting (body host b).outcome host (body host b).state).after
        (body host b).events := rfl

theorem Tends.leave (h : Tends setting R) (outcome : Except Failure α) :
    (Group.leave setting outcome).Keeps R := by
  refine .bind h.toIsPath (.get h.toIsPath) fun b => ?_
  cases outcome with
  | error f => exact .bind h.toIsPath (h.releaseAll _ _ _) fun _ => .fail h.toIsPath f
  | ok a =>
    refine .bind h.toIsPath (h.releaseAll _ _ _) fun found => ?_
    cases found with
    | none => exact .pure h.toIsPath a
    | some f => exact .fail h.toIsPath f

theorem Tends.closing (h : Tends setting R) {body : Action Block α} (hbody : body.Keeps R) :
    (Group.closing setting body).Keeps R :=
  .bind h.toIsPath hbody.attempt h.leave

/-- A block of two parts, the second of which tends: all that comes after the first part is
    the second and the leaving, if the first fails then the leaving alone. -/
theorem Tends.closing_bind (h : Tends setting R) {first : Action Block α}
    {second : α → Action Block β} (hsecond : ∀ a, (second a).Keeps R) (host : Host) (b : Block) :
    ∃ l, (Group.closing setting (first >>= second) host b).events
        = (first host b).events ++ l ∧
      R (first host b).state l (Group.closing setting (first >>= second) host b).state := by
  rw [closing_apply, Action.bind_apply]
  generalize first host b = r
  obtain ⟨outcome, b', l'⟩ := r
  cases outcome with
  -- The second part is skipped, and the leaving starts from where the first has failed.
  | error f => exact ⟨_, rfl, h.leave (.error f) host b'⟩
  | ok a =>
    refine ⟨(second a host b').events ++ _, List.append_assoc .., ?_⟩
    exact h.append (hsecond a host b') (h.leave _ host _)

/-! ## Starting -/

/-- Kept by what is done to start members. -/
structure Starts (setting : Setting) (R : Block → List Event → Block → Prop) : Prop
    extends IsPath R where
  start : ∀ invocation, (Group.start setting invocation).Keeps R
  pipe : Machine.pipe.inBlock.Keeps R
  close : ∀ b fd, R b [.close fd] b

/-! ## Whole groups -/

section Machines

variable {S : Machine → List Event → Machine → Prop}
  (hstarts : Starts setting fun b l b' => S b.machine l b'.machine)
  (htends : Tends setting fun b l b' => S b.machine l b'.machine)

include hstarts htends

/-- A relation of machines that is kept by starting the members of a group and by tending them
    is kept by the whole group. -/
theorem within_keeps {first : Action Block α} {second : α → Action Block β}
    (hfirst : ∀ R, Starts setting R → first.Keeps R)
    (hsecond : ∀ R, Tends setting R → ∀ a, (second a).Keeps R) :
    (within setting (first >>= second)).Keeps S := by
  intro host m
  have hbody := Action.Keeps.bind htends.toIsPath (hfirst _ hstarts) (hsecond _ htends)
  exact htends.closing hbody host { machine := m }

theorem foreground_keeps (invocation : Invocation) :
    (foreground setting invocation).Keeps S :=
  within_keeps hstarts htends (fun _ h => h.start invocation) fun _ h position => h.wait position

end Machines

end Group

namespace Pipeline

variable {setting : Setting} {R : Block → List Event → Block → Prop}

theorem waitStages_keeps (h : Group.Tends setting R) (positions : List Nat)
    (first : Option Failure) : (waitStages setting first positions).Keeps R := by
  induction positions generalizing first with
  | nil => exact .pure h.toIsPath first
  | cons i rest ih =>
    refine .bind h.toIsPath (h.wait i).attempt fun outcome => ?_
    split
    · exact ih _
    · exact ih _
    · exact .fail h.toIsPath _

theorem closeEnd_keeps (h : Group.Starts setting R) (fd : Option Descriptor) :
    (closeEnd fd : Action Block Unit).Keeps R := by
  cases fd with
  | none => exact .pure h.toIsPath ()
  | some fd => exact fun _ b => h.close b fd

/-- The pipe behind a stage, its read end first, and none behind the last stage. -/
def connect (index : Nat) (readEnd : Option Descriptor) (last : Bool) :
    Action Block (Option Descriptor × Option Descriptor) :=
  if last then pure (none, none)
  else (do
    let (r, w) ← openPipe index
    pure (some r, some w)).onFailure (closeEnd readEnd)

/-- The start of a stage between two pipes, and what is closed after it. -/
def startStage (setting : Setting) (index : Nat) (stage : Invocation)
    (readEnd writeEnd nextRead : Option Descriptor) : Action Block Nat :=
  let connected := { stage with stdin := streamOf readEnd, stdout := streamOf writeEnd }
  (((Group.start setting connected).mapFailure (startFailure index)).ensuring do
    closeEnd readEnd
    closeEnd writeEnd).onFailure (closeEnd nextRead)

theorem startStages_cons (setting : Setting) (index : Nat) (readEnd : Option Descriptor)
    (stage : Invocation) (rest : List Invocation) :
    startStages setting index readEnd (stage :: rest)
      = connect index readEnd rest.isEmpty >>= fun ends =>
          startStage setting index stage readEnd ends.2 ends.1 >>= fun _ =>
            startStages setting (index + 1) ends.1 rest := by
  rw [startStages, connect]
  split <;> rfl

theorem connect_keeps (h : Group.Starts setting R) (index : Nat) (readEnd : Option Descriptor)
    (last : Bool) : (connect index readEnd last).Keeps R := by
  unfold connect
  split
  · exact .pure h.toIsPath _
  · refine .onFailure h.toIsPath ?_ (closeEnd_keeps h readEnd)
    exact .bind h.toIsPath (h.pipe.mapFailure _) fun _ => .pure h.toIsPath _

theorem startStage_keeps (h : Group.Starts setting R) (index : Nat) (stage : Invocation)
    (readEnd writeEnd nextRead : Option Descriptor) :
    (startStage setting index stage readEnd writeEnd nextRead).Keeps R := by
  have hcleanup : (do closeEnd readEnd; closeEnd writeEnd : Action Block Unit).Keeps R :=
    .bind h.toIsPath (closeEnd_keeps h readEnd) fun _ => closeEnd_keeps h writeEnd
  have hstarted := ((h.start { stage with
    stdin := streamOf readEnd, stdout := streamOf writeEnd }).mapFailure
      (startFailure index)).ensuring h.toIsPath hcleanup
  exact hstarted.onFailure h.toIsPath (closeEnd_keeps h nextRead)

theorem startStages_keeps (h : Group.Starts setting R) (stages : List Invocation) (index : Nat)
    (readEnd : Option Descriptor) : (startStages setting index readEnd stages).Keeps R := by
  induction stages generalizing index readEnd with
  | nil => exact closeEnd_keeps h readEnd
  | cons stage rest ih =>
    rw [startStages_cons]
    refine .bind h.toIsPath (connect_keeps h index readEnd rest.isEmpty) fun ends => ?_
    refine .bind h.toIsPath ?_ fun _ => ih (index + 1) ends.1
    exact startStage_keeps h index stage readEnd ends.2 ends.1

/-- All stages have been started: the rest of a pipeline tends. -/
def tendStages (setting : Setting) (stages : List Invocation) : Action Block Unit := do
  .log .pipeline s!"pipeline started {stages.length} stage(s)"
  match ← waitStages setting none (List.range stages.length) with
  | none => pure ()
  | some f => .fail f

theorem runStages_eq_tendStages (setting : Setting) (stages : List Invocation) :
    runStages setting stages = startStages setting 0 none stages >>= fun _ =>
      tendStages setting stages := rfl

/-- The rest of a pipeline fails as the waiting does, or with the failure that the waiting has
    found. -/
theorem tendStages_failure {stages : List Invocation} {host : Host} {b : Block} {f : Failure}
    (hf : (tendStages setting stages host b).outcome = .error f) :
    let waited := waitStages setting none (List.range stages.length) host b
    waited.outcome = .error f ∨ waited.outcome = .ok (some f) := by
  rcases Action.outcome_bind_eq_error.mp hf with hlog | ⟨-, -, hwaits⟩
  · cases hlog
  rcases Action.outcome_bind_eq_error.mp hwaits with hwait | ⟨found, hfound, hraise⟩
  · exact .inl hwait
  · cases found with
    | none => cases hraise
    | some f' =>
      cases hraise
      exact .inr hfound

theorem tendStages_keeps (h : Group.Tends setting R) (stages : List Invocation) :
    (tendStages setting stages).Keeps R := by
  refine .bind h.toIsPath (fun _ b => h.log b _ _) fun _ => ?_
  refine .bind h.toIsPath (waitStages_keeps h _ none) fun found => ?_
  cases found with
  | none => exact .pure h.toIsPath ()
  | some f => exact .fail h.toIsPath f

theorem run_keeps {S : Machine → List Event → Machine → Prop}
    (hstarts : Group.Starts setting fun b l b' => S b.machine l b'.machine)
    (htends : Group.Tends setting fun b l b' => S b.machine l b'.machine)
    (stages : List (List String)) : (run setting stages).Keeps S := by
  unfold run
  split
  · exact fun _ m => hstarts.nil { machine := m }
  · rename_i invocations _
    exact Group.within_keeps hstarts htends (fun _ h => startStages_keeps h invocations 0 none)
      fun _ h _ => tendStages_keeps h invocations

end Pipeline

end LineShell
