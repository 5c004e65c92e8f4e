/-
  LineShell.Proofs.Shell.Traced

  Which parts of a tree the events of a run come from.

  Events of some kind are traced to causes when each of them has a cause of its own
  and they come in the order of their causes; a cause may be without an event
  (`Tracing`).  Runs one after another are traced to their causes put together.  A
  tree is gone through from the left, and leaves are passed over, but none is run
  twice; so events that every leaf causes by itself are traced, over the whole tree,
  to the causes in its leaves (`runTree_tracing`), and dispatching the tree adds
  reports and calls for handlers and nothing else (`executeWith_tracing`).
-/

import LineShell.Proofs.Governor.Calls
import LineShell.Proofs.Shell.Fulfils
import Mathlib.Data.List.Basic
import Mathlib.Data.List.Forall2

namespace LineShell

variable {σ α β γ : Type}

/-- Lists that are related to sublists of others, put together. -/
theorem sublistForall₂_append {R : α → β → Prop} {l₁ l₂ : List α} {m₁ m₂ : List β}
    (h₁ : List.SublistForall₂ R l₁ m₁) (h₂ : List.SublistForall₂ R l₂ m₂) :
    List.SublistForall₂ R (l₁ ++ l₂) (m₁ ++ m₂) := by
  obtain ⟨k₁, hall₁, hsub₁⟩ := List.sublistForall₂_iff.mp h₁
  obtain ⟨k₂, hall₂, hsub₂⟩ := List.sublistForall₂_iff.mp h₂
  exact List.sublistForall₂_iff.mpr ⟨_, List.rel_append hall₁ hall₂, hsub₁.append hsub₂⟩

/-- The events of a run that are of some kind have causes of their own among the given ones, in
    this order. -/
def Tracing (isKind : Event → Bool) (CausedBy : Event → γ → Prop) (causes : List γ) :
    Contract σ :=
  fun _ l _ _ => List.SublistForall₂ CausedBy (l.filter isKind) causes

namespace Tracing

variable {isKind : Event → Bool} {CausedBy : Event → γ → Prop} {causes causes₁ causes₂ : List γ}
  {host : Host}

theorem append {l₁ l₂ : List Event}
    (h₁ : List.SublistForall₂ CausedBy (l₁.filter isKind) causes₁)
    (h₂ : List.SublistForall₂ CausedBy (l₂.filter isKind) causes₂) :
    List.SublistForall₂ CausedBy ((l₁ ++ l₂).filter isKind) (causes₁ ++ causes₂) := by
  rw [List.filter_append]
  exact sublistForall₂_append h₁ h₂

/-- Each event has a cause. -/
theorem exists_cause {l : List Event}
    (h : List.SublistForall₂ CausedBy (l.filter isKind) causes) {e : Event} (he : e ∈ l)
    (hkind : isKind e = true) : ∃ cause ∈ causes, CausedBy e cause := by
  generalize hpicked : l.filter isKind = picked at h
  have hmem : e ∈ picked := hpicked ▸ List.mem_filter.mpr ⟨he, hkind⟩
  clear hpicked
  induction h with
  | nil => cases hmem
  | @cons e' cause _ _ hcause _ ih =>
    rcases List.mem_cons.mp hmem with rfl | hmem
    · exact ⟨cause, List.mem_cons_self, hcause⟩
    · obtain ⟨cause', hmem', hcause'⟩ := ih hmem
      exact ⟨cause', List.mem_cons_of_mem _ hmem', hcause'⟩
  | cons_right _ ih =>
    obtain ⟨cause', hmem', hcause'⟩ := ih hmem
    exact ⟨cause', List.mem_cons_of_mem _ hmem', hcause'⟩

/-- A run without events of the kind is traced to whatever there is. -/
theorem of_none {x : Action σ α} (h : ∀ s, (x host s).events.filter isKind = []) :
    x.Meets host (Tracing isKind CausedBy causes) := by
  intro s
  rw [Tracing, h s]
  exact .nil

theorem bind {x : Action σ α} {next : α → Action σ β}
    (hx : x.Meets host (Tracing isKind CausedBy causes₁))
    (hnext : ∀ a, (next a).Meets host (Tracing isKind CausedBy causes₂)) :
    (x >>= next).Meets host (Tracing isKind CausedBy (causes₁ ++ causes₂)) := by
  intro s
  have hfirst := hx s
  rw [Action.bind_apply]
  generalize x host s = r at hfirst
  obtain ⟨outcome, s', l⟩ := r
  cases outcome with
  | error f =>
    have hnone : List.SublistForall₂ CausedBy (List.filter isKind []) causes₂ := .nil
    simpa [Tracing] using append hfirst hnone
  | ok a => exact append hfirst (hnext a s')

theorem inSession {x : Action Machine α} (hx : x.Meets host (Tracing isKind CausedBy causes)) :
    x.inSession.Meets host (Tracing isKind CausedBy causes) := fun s => hx s.machine

end Tracing

namespace Shell

variable {shell : Shell} {interpret : Interpreter} {host : Host} {isKind : Event → Bool}
  {CausedBy : Event → γ → Prop} {causes : Tree → List γ}

/-! ## Trees -/

theorem attemptShell_tracing {c : List γ} {x : Action Session Unit}
    (hx : x.Meets host (Tracing isKind CausedBy c)) :
    (attemptShell x).Meets host (Tracing isKind CausedBy c) := by
  intro s
  rw [attemptShell_apply]
  exact hx s

mutual

/-- What each leaf causes by itself the tree causes in the order of its leaves. -/
theorem runTree_tracing (hlog : ∀ source message, isKind (.log source message) = false)
    (t : Tree) (hleaves : ∀ leaf ∈ t.leaves,
      (runTree shell interpret leaf).Meets host (Tracing isKind CausedBy (causes leaf))) :
    (runTree shell interpret t).Meets host
      (Tracing isKind CausedBy (t.leaves.flatMap causes)) := by
  match t with
  | .command text words => simpa [Tree.leaves] using hleaves
  | .redirect source mode target => simpa [Tree.leaves] using hleaves
  | .pipeline stages => simpa [Tree.leaves] using hleaves
  | .conditional groups =>
    rw [runTree]
    exact runGroups_tracing hlog 0 groups hleaves

theorem runGroups_tracing (hlog : ∀ source message, isKind (.log source message) = false)
    (index : Nat) (groups : List (List Tree))
    (hleaves : ∀ leaf ∈ Tree.leavesOfGroups groups,
      (runTree shell interpret leaf).Meets host (Tracing isKind CausedBy (causes leaf))) :
    (runGroups shell interpret index groups).Meets host
      (Tracing isKind CausedBy ((Tree.leavesOfGroups groups).flatMap causes)) := by
  match groups with
  | [] =>
    rw [runGroups]
    exact Tracing.of_none fun _ => rfl
  | group :: rest =>
    simp only [Tree.leavesOfGroups, List.forall_mem_append] at hleaves
    rw [runGroups, Tree.leavesOfGroups, List.flatMap_append]
    refine Tracing.bind (runAlternatives_tracing hlog none group hleaves.1) fun failure => ?_
    cases failure with
    | none => exact runGroups_tracing hlog (index + 1) rest hleaves.2
    -- The groups behind one that failed are left out.
    | some f =>
      refine Tracing.of_none fun s => ?_
      show ((if rest.isEmpty then .fail f else .log _ _ : Action Session Unit) host s).events.filter
        isKind = []
      split
      · rfl
      · rw [Action.log_apply, List.filter_singleton, hlog]
        rfl

theorem runAlternatives_tracing (hlog : ∀ source message, isKind (.log source message) = false)
    (failure : Option Failure) (group : List Tree)
    (hleaves : ∀ leaf ∈ Tree.leavesOfGroup group,
      (runTree shell interpret leaf).Meets host (Tracing isKind CausedBy (causes leaf))) :
    (runAlternatives shell interpret failure group).Meets host
      (Tracing isKind CausedBy ((Tree.leavesOfGroup group).flatMap causes)) := by
  match group with
  | [] =>
    rw [runAlternatives]
    exact Tracing.of_none fun _ => rfl
  | alternative :: rest =>
    simp only [Tree.leavesOfGroup, List.forall_mem_append] at hleaves
    rw [runAlternatives, Tree.leavesOfGroup, List.flatMap_append]
    refine Tracing.bind (attemptShell_tracing (runTree_tracing hlog alternative hleaves.1))
      fun caught => ?_
    cases caught with
    | none => exact Tracing.of_none fun _ => rfl
    | some f => exact runAlternatives_tracing hlog (some f) rest hleaves.2

end

/-! ## Lines -/

/-- Dispatching a line causes what its tree causes. -/
theorem executeWith_tracing {c : List γ}
    (haside : ∀ e, e.isInstall = true ∨ e.isLog = true → isKind e = false) (line : String)
    (htree : (runTree shell interpret (Tree.parse line)).Meets host (Tracing isKind CausedBy c)) :
    (executeWith shell interpret line).Meets host (Tracing isKind CausedBy c) := by
  have hreport : ∀ message, (Action.log .dispatch message : Action Session Unit).Meets host
      (Tracing isKind CausedBy []) := by
    refine fun message => Tracing.of_none fun s => ?_
    rw [Action.log_apply, List.filter_singleton, haside _ (.inr rfl)]
    rfl
  refine Tracing.bind (hreport _) fun _ s => ?_
  rw [Tracing, Governor.filter_events_exposed haside]
  split
  · exact htree _
  · exact .nil

end Shell

end LineShell
