/-
  LineShell.Proofs.Action.Keeps

  Relations that every run keeps.

  A relation between the state before a run, the events of the run and the state
  after it is a path relation when it holds of doing nothing and is carried over
  from two runs to the one put together from them.  An action keeps a relation
  when each of its runs is in it, whatever its outcome.  For a path relation that
  is settled part by part: no way of putting actions together leads out of it,
  failures and cleanups included.
-/

import LineShell.Action.Lemmas

namespace LineShell

variable {σ τ α β : Type}

/-- Holds of doing nothing, and of two runs put together. -/
structure IsPath (R : σ → List Event → σ → Prop) : Prop where
  nil : ∀ s, R s [] s
  append : ∀ {s₁ s₂ s₃ l₁ l₂}, R s₁ l₁ s₂ → R s₂ l₂ s₃ → R s₁ (l₁ ++ l₂) s₃

namespace IsPath

variable {R S : σ → List Event → σ → Prop}

theorem and (hR : IsPath R) (hS : IsPath S) : IsPath fun s l s' => R s l s' ∧ S s l s' where
  nil s := ⟨hR.nil s, hS.nil s⟩
  append h₁ h₂ := ⟨hR.append h₁.1 h₂.1, hS.append h₁.2 h₂.2⟩

/-- A relation between the parts of two states. -/
theorem comap (hR : IsPath R) (part : τ → σ) : IsPath fun t l t' => R (part t) l (part t') where
  nil t := hR.nil (part t)
  append h₁ h₂ := hR.append h₁ h₂

/-- Every event has a property. -/
theorem forall_mem (P : Event → Prop) : IsPath fun (_ : σ) l (_ : σ) => ∀ e ∈ l, P e where
  nil _ := by simp
  append h₁ h₂ := by
    intro e he
    rcases List.mem_append.mp he with he | he
    · exact h₁ e he
    · exact h₂ e he

end IsPath

namespace Action

/-- Every run of the action is in the relation. -/
def Keeps (R : σ → List Event → σ → Prop) (x : Action σ α) : Prop :=
  ∀ host s, R s (x host s).events (x host s).state

namespace Keeps

variable {R S : σ → List Event → σ → Prop} {x : Action σ α}

/-! ## Elementary actions -/

theorem mono (h : x.Keeps R) (hRS : ∀ s l s', R s l s' → S s l s') : x.Keeps S :=
  fun host s => hRS _ _ _ (h host s)

theorem and (hR : x.Keeps R) (hS : x.Keeps S) : x.Keeps fun s l s' => R s l s' ∧ S s l s' :=
  fun host s => ⟨hR host s, hS host s⟩

theorem pure (hR : IsPath R) (a : α) : (Pure.pure a : Action σ α).Keeps R :=
  fun _ s => hR.nil s

theorem fail (hR : IsPath R) (f : Failure) : (Action.fail f : Action σ α).Keeps R :=
  fun _ s => hR.nil s

theorem get (hR : IsPath R) : (Action.get : Action σ σ).Keeps R :=
  fun _ s => hR.nil s

theorem host (hR : IsPath R) : (Action.host : Action σ Host).Keeps R :=
  fun _ s => hR.nil s

theorem ofExcept (hR : IsPath R) (outcome : Except Failure α) :
    (Action.ofExcept outcome : Action σ α).Keeps R := by
  intro host s
  rw [ofExcept_apply]
  exact hR.nil s

/-! ## Combined actions -/

theorem bind (hR : IsPath R) {next : α → Action σ β} (hx : x.Keeps R)
    (hnext : ∀ a, (next a).Keeps R) : (x >>= next).Keeps R := by
  intro host s
  have hfirst := hx host s
  rw [bind_apply]
  generalize x host s = r at hfirst ⊢
  obtain ⟨outcome, s', l⟩ := r
  cases outcome with
  | error f => exact hfirst
  | ok a => exact hR.append hfirst (hnext a host s')

theorem attempt (hx : x.Keeps R) : x.attempt.Keeps R := hx

theorem mapFailure (hx : x.Keeps R) (change : Failure → Failure) :
    (x.mapFailure change).Keeps R := hx

theorem ensuring (hR : IsPath R) {cleanup : Action σ Unit} (hx : x.Keeps R)
    (hcleanup : cleanup.Keeps R) : (x.ensuring cleanup).Keeps R :=
  bind hR hx.attempt fun outcome => bind hR hcleanup fun _ => ofExcept hR outcome

theorem onFailure (hR : IsPath R) {cleanup : Action σ Unit} (hx : x.Keeps R)
    (hcleanup : cleanup.Keeps R) : (x.onFailure cleanup).Keeps R := by
  refine bind hR hx.attempt fun outcome => ?_
  cases outcome with
  | ok a => exact pure hR a
  | error f => exact bind hR hcleanup fun _ => fail hR f

/-- An action on a part keeps what holds of the part, if the part that is put back is
    the part that is found there afterwards. -/
theorem zoom {part : τ → σ} {replace : σ → τ → τ} (hpart : ∀ p t, part (replace p t) = p)
    (hx : x.Keeps R) : (x.zoom part replace).Keeps fun t l t' => R (part t) l (part t') := by
  intro host t
  rw [zoom_apply, hpart]
  exact hx host (part t)

end Keeps

end Action

end LineShell
