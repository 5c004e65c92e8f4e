/-
  LineShell.Proofs.Event.Output

  Text on its way to the standard output.

  A text is written, waits, and is handed on with all that waits before it.  Events
  deliver text when nothing else is ever handed on than what waits, and when nothing
  waits where a process is started (`Delivers`).  Then what has been handed on and
  what still waits make up, in this order, all that has been written, at every moment
  (`conserved`), and a process is started behind all of it (`pendingAfter_of_launch`).
-/

import LineShell.Proofs.Pipeline.Connected

namespace LineShell

/-! ## Written, handed on, waiting -/

/-- All that is written to the standard output. -/
def written : List Event → String
  | [] => ""
  | .write .standard text :: l => text ++ written l
  | _ :: l => written l

/-- All that reaches the standard output. -/
def handedOn : List Event → String
  | [] => ""
  | .out .standard text :: l => text ++ handedOn l
  | _ :: l => handedOn l

/-- The text that waits after the events, where `pending` has been waiting before them: what is
    written since the last time that text was handed on. -/
def pendingAfter (pending : String) : List Event → String
  | [] => pending
  | .write .standard text :: l => pendingAfter (pending ++ text) l
  | .out .standard _ :: l => pendingAfter "" l
  | _ :: l => pendingAfter pending l

/-- Whether the event moves text on its way to the standard output. -/
def Event.isOutput : Event → Bool
  | .write .standard _ | .out .standard _ => true
  | _ => false

section Unmoved

variable {e : Event} (he : e.isOutput = false) (l : List Event)

include he

theorem written_cons_of_not : written (e :: l) = written l := by
  cases e with
  | write stream => cases stream <;> first | rfl | cases he
  | _ => rfl

theorem handedOn_cons_of_not : handedOn (e :: l) = handedOn l := by
  cases e with
  | out stream => cases stream <;> first | rfl | cases he
  | _ => rfl

theorem pendingAfter_cons_of_not (pending : String) :
    pendingAfter pending (e :: l) = pendingAfter pending l := by
  cases e with
  | write stream => cases stream <;> first | rfl | cases he
  | out stream => cases stream <;> first | rfl | cases he
  | _ => rfl

end Unmoved

/-! ## Delivering -/

/-- The events hand on nothing but what waits, and all of it, and start processes only where
    nothing waits; `pending` waits before them and `left` after them. -/
inductive Delivers : (pending : String) → List Event → (left : String) → Prop
  | nil (pending : String) : Delivers pending [] pending
  | write {pending text left : String} {l : List Event} (h : Delivers (pending ++ text) l left) :
      Delivers pending (.write .standard text :: l) left
  | out {pending left : String} {l : List Event} (h : Delivers "" l left) :
      Delivers pending (.out .standard pending :: l) left
  | other {e : Event} {pending left : String} {l : List Event} (he : e.isOutput = false)
      (hlaunch : e.isLaunch = true → pending = "") (h : Delivers pending l left) :
      Delivers pending (e :: l) left

namespace Delivers

variable {pending middle left : String} {l l₁ l₂ : List Event} {e : Event}

theorem append (h₁ : Delivers pending l₁ middle) (h₂ : Delivers middle l₂ left) :
    Delivers pending (l₁ ++ l₂) left := by
  induction h₁ with
  | nil => exact h₂
  | write _ ih => exact .write (ih h₂)
  | out _ ih => exact .out (ih h₂)
  | other he hlaunch _ ih => exact .other he hlaunch (ih h₂)

theorem of_forall (h : ∀ e ∈ l, e.isOutput = false)
    (hlaunch : ∀ e ∈ l, e.isLaunch = true → pending = "") : Delivers pending l pending := by
  induction l with
  | nil => exact .nil pending
  | cons e l ih =>
    obtain ⟨he, hrest⟩ := List.forall_mem_cons.mp h
    obtain ⟨helaunch, hlaunch⟩ := List.forall_mem_cons.mp hlaunch
    exact .other he helaunch (ih hrest hlaunch)

/-- What waits after the events is settled by what has waited before them. -/
theorem left_eq (h : Delivers pending l left) : left = pendingAfter pending l := by
  induction h with
  | nil => rfl
  | write _ ih => exact ih
  | out _ ih => exact ih
  | other he _ _ ih => rw [pendingAfter_cons_of_not he, ih]

/-- What has been handed on and what still waits are all that has been written, and what had
    been waiting before, in order. -/
theorem conserved (h : Delivers pending l left) : pending ++ written l = handedOn l ++ left := by
  induction h with
  | nil => rw [written, handedOn, String.append_empty, String.empty_append]
  | write _ ih =>
    rw [written, ← String.append_assoc, ih]
    rfl
  | out _ ih =>
    rw [handedOn, String.append_assoc, ← ih, String.empty_append]
    rfl
  | other he _ _ ih => rw [written_cons_of_not he, handedOn_cons_of_not he, ih]

/-- Events that deliver do so up to every moment, and from there on. -/
theorem split (h : Delivers pending (l₁ ++ l₂) left) :
    Delivers pending l₁ (pendingAfter pending l₁) ∧
      Delivers (pendingAfter pending l₁) l₂ left := by
  induction l₁ generalizing pending with
  | nil => exact ⟨.nil pending, h⟩
  | cons e l₁ ih =>
    rw [List.cons_append] at h
    cases h with
    | write h => exact (ih h).imp_left .write
    | out h => exact (ih h).imp_left .out
    | other he hlaunch h =>
      rw [pendingAfter_cons_of_not he]
      exact (ih h).imp_left (.other he hlaunch)

/-- Where a process is started, nothing waits. -/
theorem pendingAfter_of_launch (h : Delivers pending (l₁ ++ e :: l₂) left)
    (he : e.isLaunch = true) : pendingAfter pending l₁ = "" := by
  obtain ⟨-, hrest⟩ := h.split
  generalize pendingAfter pending l₁ = waiting at hrest
  cases hrest with
  | write => cases he
  | out => cases he
  | other _ hlaunch => exact hlaunch he

end Delivers

end LineShell
