/-
  LineShell.Proofs.Action.Meets

  What runs come to, the failures they end with included.

  A contract relates the state before a run, its events, the failure that it ends
  with, if it does, and the state after it.  It is sequential when it holds of
  doing nothing and is carried over from a run that has not failed and the run
  after it to the two put together.  Then an action meets it as soon as its parts
  do.  Catching a failure is another matter: what a run that failed comes to has
  to be good enough for one that did not.
-/

import LineShell.Proofs.Action.Keeps

namespace LineShell

variable {σ τ α β : Type}

/-- The failure that came out, if one did. -/
def Result.failure? (r : Result σ α) : Option Failure :=
  match r.outcome with
  | .ok _ => none
  | .error f => some f

namespace Result

@[simp] theorem failure?_ok (a : α) (s : σ) (l : List Event) :
    (⟨.ok a, s, l⟩ : Result σ α).failure? = none := rfl

@[simp] theorem failure?_error (f : Failure) (s : σ) (l : List Event) :
    (⟨.error f, s, l⟩ : Result σ α).failure? = some f := rfl

@[simp] theorem failure?_after (l : List Event) (r : Result σ α) :
    (r.after l).failure? = r.failure? := rfl

theorem failure?_eq_some {r : Result σ α} {f : Failure} :
    r.failure? = some f ↔ r.outcome = .error f := by
  obtain ⟨outcome, s, l⟩ := r
  cases outcome <;> simp

end Result

/-- What a run may come to. -/
abbrev Contract (σ : Type) : Type := σ → List Event → Option Failure → σ → Prop

namespace Contract

/-- Holds of doing nothing, and of a run that has not failed with another after it. -/
structure Sequential (C : Contract σ) : Prop where
  nil : ∀ s, C s [] none s
  append : ∀ {s₁ s₂ s₃ l₁ l₂ failure?}, C s₁ l₁ none s₂ → C s₂ l₂ failure? s₃ →
    C s₁ (l₁ ++ l₂) failure? s₃

/-- A path relation does not ask for the failure. -/
theorem Sequential.of_isPath {R : σ → List Event → σ → Prop} (hR : IsPath R) :
    Sequential fun s l _ s' => R s l s' where
  nil := hR.nil
  append := hR.append

end Contract

namespace Action

/-- Every run of the action on the host is as the contract says. -/
def Meets (host : Host) (C : Contract σ) (x : Action σ α) : Prop :=
  ∀ s, C s (x host s).events (x host s).failure? (x host s).state

theorem Keeps.meets {R : σ → List Event → σ → Prop} {x : Action σ α} (h : x.Keeps R)
    (host : Host) : x.Meets host fun s l _ s' => R s l s' :=
  fun s => h host s

namespace Meets

variable {host : Host} {C D : Contract σ} {x : Action σ α}

theorem pure (hC : C.Sequential) (a : α) : (Pure.pure a : Action σ α).Meets host C :=
  fun s => hC.nil s

theorem get (hC : C.Sequential) : (Action.get : Action σ σ).Meets host C :=
  fun s => hC.nil s

/-- What comes next is to meet the contract from where the first part can lead. -/
theorem bind_of_ok (hC : C.Sequential) {next : α → Action σ β} (hx : x.Meets host C)
    (hnext : ∀ a s, (x host s).outcome = .ok a → (next a).Meets host C) :
    (x >>= next).Meets host C := by
  intro s
  have hfirst := hx s
  have hnext := fun a => hnext a s
  rw [bind_apply]
  generalize x host s = r at hfirst hnext ⊢
  obtain ⟨outcome, s', l⟩ := r
  cases outcome with
  | error f => exact hfirst
  | ok a => exact hC.append hfirst (hnext a rfl s')

theorem bind (hC : C.Sequential) {next : α → Action σ β} (hx : x.Meets host C)
    (hnext : ∀ a, (next a).Meets host C) : (x >>= next).Meets host C :=
  bind_of_ok hC hx fun a _ _ => hnext a

/-- The failure of a cleanup comes out in the place of the one before. -/
theorem ensuring {cleanup : Action σ Unit} (hx : x.Meets host C)
    (hcleanup : ∀ s₁ l₁ failure? s₂, C s₁ l₁ failure? s₂ →
      C s₁ (l₁ ++ (cleanup host s₂).events) ((cleanup host s₂).failure?.or failure?)
        (cleanup host s₂).state) : (x.ensuring cleanup).Meets host C := by
  intro s
  have hrun := hcleanup _ _ _ _ (hx s)
  simp only [Action.ensuring, bind_apply, attempt_apply, Result.andThen_ok]
  generalize cleanup host (x host s).state = r at hrun
  obtain ⟨outcome, s', l⟩ := r
  cases outcome with
  | error f => exact hrun
  -- The cleanup has come to its end, and the outcome of the first part is taken up again.
  | ok =>
    simp only [Result.andThen_ok, ofExcept_apply, Result.after_mk, List.append_nil]
    exact hrun

end Meets

end Action

end LineShell
