/-
  LineShell.Proofs.Failure

  Which failures a read loop reports, which ones the system gives, and which
  status a failure is to give to its line.

  A failure of the system becomes one that is reported when a part of the shell
  claims it.  The status of a failure is the one that it warrants, unless it
  misleads (`warrants_iff`).
-/

import LineShell.Failure

namespace LineShell

namespace Failure

/-- A read loop reports the failure and goes on. -/
def isReported : Failure → Bool
  | interrupt _ => true
  | f => f.isShell

/-- The failure is one of the system. -/
def isSystem (f : Failure) : Bool := f.systemReason?.isSome

theorem isReported_of_isShell {f : Failure} (h : f.isShell = true) : f.isReported = true := by
  cases f <;> first | rfl | cases h

/-- A failure of the system becomes one of the shell when it is claimed. -/
theorem isShell_claimedFor {f : Failure} (h : f.isSystem = true) (category : Category)
    (subject : String) : (f.claimedFor category subject).isShell = true := by
  obtain ⟨reason, hreason⟩ := Option.isSome_iff_exists.mp h
  simp only [claimedFor, hreason]
  rfl

/-! ## The status that a failure is to have -/

/-- The status that a line is to end with that fails so. -/
inductive Warrants : Failure → Int → Prop
  | exited {program : String} {status : Int} (h : 0 < status) :
      Warrants (.exitStatus program status) status
  | killed {program : String} {signum : Int} (h : 0 < signum) :
      Warrants (.exitStatus program (-signum)) (128 + signum)
  | notStarted {message : String} : Warrants (.shell .launch message) 127
  | argument {message : String} : Warrants (.shell .argument message) 2
  | other {category : Category} {message : String} (hlaunch : category ≠ .launch)
      (hargument : category ≠ .argument) : Warrants (.shell category message) 1
  | interrupted {message : String} : Warrants (.interrupt message) 130
  | system {f : Failure} (h : f.isSystem = true) : Warrants f 1
  | fault {kind : Fault} {message : String} : Warrants (.fault kind message) 1
  /-- A pipeline fails as its stage does. -/
  | stage {index : Int} {cause : Failure} {status : Int} (h : Warrants cause status) :
      Warrants (.stage index cause) status

/-- Success is warranted by no failure. -/
theorem Warrants.pos {f : Failure} {status : Int} (h : f.Warrants status) : 0 < status := by
  induction h with
  | exited h => exact h
  | killed h => omega
  | stage _ ih => exact ih
  | _ => decide

/-- The failure says that a program has ended with success, or that a stage of a pipeline was
    interrupted, which has no status of its own. -/
def misleads : Failure → Bool
  | exitStatus _ status => status = 0
  | stage _ (interrupt _) => true
  | stage _ cause => cause.misleads
  | shell .. | system .. | systemText _ | interrupt _ | fault .. => false

/-- Only failures of the shell have a status, so only they can mislead. -/
theorem misleads_of_not_isShell {f : Failure} (h : f.isShell = false) : f.misleads = false := by
  cases f <;> first | rfl | cases h

theorem misleads_of_isSystem {f : Failure} (h : f.isSystem = true) : f.misleads = false := by
  cases f <;> first | rfl | cases h

theorem misleads_claimedFor {f : Failure} (h : f.misleads = false) (category : Category)
    (subject : String) : (f.claimedFor category subject).misleads = false := by
  unfold claimedFor
  split
  · rfl
  · exact h

/-- A failure that does not mislead has the status that it warrants, if it has any. -/
theorem warrants_of_exitStatus? {f : Failure} (h : f.misleads = false) {status : Int}
    (hstatus : f.exitStatus? = some status) : f.Warrants status := by
  induction f generalizing status with
  | shell category message =>
    obtain rfl := Option.some.inj hstatus
    cases category with
    | argument => exact .argument
    | launch => exact .notStarted
    | _ => exact .other nofun nofun
  | exitStatus program ended =>
    obtain rfl := Option.some.inj hstatus
    have hended : ended ≠ 0 := of_decide_eq_false h
    by_cases hkilled : ended < 0
    · rw [if_pos hkilled]
      have hkilled' : Warrants (.exitStatus program (- -ended)) (128 + -ended) := .killed (by omega)
      rwa [Int.neg_neg, Int.add_neg_eq_sub] at hkilled'
    · rw [if_neg hkilled]
      exact .exited (by omega)
  | stage index cause ih =>
    obtain rfl := Option.some.inj hstatus
    -- A cause without a status is one of the system or a fault, as it was no interrupt.
    cases cause with
    | interrupt message => cases h
    | system | systemText => exact .stage (.system rfl)
    | fault => exact .stage .fault
    | shell | exitStatus | stage => exact .stage (ih h rfl)
  | _ => cases hstatus

/-- The status that a failure has is one that it warrants exactly if it does not mislead. -/
theorem warrants_iff {f : Failure} {status : Int} (hstatus : f.exitStatus? = some status) :
    f.Warrants status ↔ f.misleads = false := by
  refine ⟨fun h => ?_, fun h => warrants_of_exitStatus? h hstatus⟩
  induction h with
  | exited h => exact decide_eq_false (by omega)
  | killed h => exact decide_eq_false (by omega)
  | system h => exact misleads_of_isSystem h
  | @stage index cause status hcause ih =>
    cases cause with
    -- An interrupt warrants another status than that of a cause without one.
    | interrupt message =>
      have hone : (1 : Int) = status := Option.some.inj hstatus
      cases hcause with
      | interrupted => cases hone
      | system h => cases h
    | system | systemText | fault => rfl
    | shell | exitStatus | stage => exact ih hstatus
  | _ => rfl

end Failure

end LineShell
