/-
  LineShell.Proofs.Action.Carried

  Actions that are carried over to other states and other events.

  An action is carried over to a second one, by a change of states and a change of
  events, when the second one does from the changed state what the first does from
  the state itself: it comes to the same outcome, and to the changed state and the
  changed events.  Parts that are carried over make a whole that is carried over,
  as long as what is made of a state does not depend on the change (`get_bind`).
-/

import LineShell.Action.Lemmas

namespace LineShell

variable {σ τ α β : Type} {φ : σ → σ} {ψ : Event → Event}

namespace Result

/-- The result with its state and its events changed. -/
def carry (φ : σ → σ) (ψ : Event → Event) (r : Result σ α) : Result σ α :=
  ⟨r.outcome, φ r.state, r.events.map ψ⟩

theorem carry_andThen (r : Result σ α) {next next' : α → σ → Result σ β}
    (h : ∀ a s, next' a (φ s) = (next a s).carry φ ψ) :
    (r.carry φ ψ).andThen next' = (r.andThen next).carry φ ψ := by
  obtain ⟨outcome, s, l⟩ := r
  cases outcome with
  | error f => rfl
  | ok a => simp only [carry, andThen_ok, h, after, List.map_append]

end Result

namespace Action

/-- The second action does from the changed state what the first does from the state itself. -/
def Carried (φ : σ → σ) (ψ : Event → Event) (x y : Action σ α) : Prop :=
  ∀ host s, y host (φ s) = (x host s).carry φ ψ

namespace Carried

variable {x y : Action σ α}

/-! ## Elementary actions -/

theorem pure (a : α) : Carried φ ψ (Pure.pure a) (Pure.pure a) := fun _ _ => rfl

theorem fail (f : Failure) : Carried φ ψ (Action.fail f : Action σ α) (Action.fail f) :=
  fun _ _ => rfl

theorem emit {e e' : Event} (he : ψ e = e') : Carried φ ψ (Action.emit e) (Action.emit e') := by
  subst he
  exact fun _ _ => rfl

theorem modify {f g : σ → σ} (h : ∀ s, g (φ s) = φ (f s)) :
    Carried φ ψ (Action.modify f) (Action.modify g) := by
  intro host s
  rw [modify_apply, h]
  rfl

/-! ## Combined actions -/

theorem bind {f g : α → Action σ β} (hx : Carried φ ψ x y) (hf : ∀ a, Carried φ ψ (f a) (g a)) :
    Carried φ ψ (x >>= f) (y >>= g) := by
  intro host s
  rw [bind_apply, bind_apply, hx host s]
  exact Result.carry_andThen _ fun a s' => hf a host s'

/-- The state is looked at, and the first action goes by it as the second goes by the changed
    one. -/
theorem get_bind {f g : σ → Action σ β} (h : ∀ s, Carried φ ψ (f s) (g (φ s))) :
    Carried φ ψ (Action.get >>= f) (Action.get >>= g) :=
  fun host s => h s host s

theorem attempt (hx : Carried φ ψ x y) : Carried φ ψ x.attempt y.attempt := by
  intro host s
  rw [attempt_apply, hx host s]
  rfl

theorem mapFailure (hx : Carried φ ψ x y) (change : Failure → Failure) :
    Carried φ ψ (x.mapFailure change) (y.mapFailure change) := by
  intro host s
  rw [mapFailure_apply, hx host s]
  rfl

/-- Parts of states that are changed as the states are. -/
theorem zoom {φ' : τ → τ} {part : τ → σ} {replace : σ → τ → τ}
    (hpart : ∀ t, part (φ' t) = φ (part t))
    (hreplace : ∀ s t, replace (φ s) (φ' t) = φ' (replace s t)) (hx : Carried φ ψ x y) :
    Carried φ' ψ (x.zoom part replace) (y.zoom part replace) := by
  intro host t
  rw [zoom_apply, hpart, hx host (part t)]
  simp only [Result.carry, hreplace, zoom_apply]

end Carried

end Action

end LineShell
