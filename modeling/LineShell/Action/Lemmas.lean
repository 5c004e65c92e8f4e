/-
  LineShell.Action.Lemmas

  What running an action gives, one equation per way to build one.

  `bind_apply` and its companions reduce a run to the runs of its parts; after
  them no combinator has to be unfolded.  The monad laws hold: events are put
  together by append, which has a unit and is associative.
-/

import LineShell.Action.Basic

namespace LineShell

variable {σ τ α β γ : Type}

namespace Result

@[simp] theorem outcome_after (l : List Event) (r : Result σ α) :
    (r.after l).outcome = r.outcome := rfl

@[simp] theorem state_after (l : List Event) (r : Result σ α) :
    (r.after l).state = r.state := rfl

@[simp] theorem events_after (l : List Event) (r : Result σ α) :
    (r.after l).events = l ++ r.events := rfl

@[simp] theorem after_nil (r : Result σ α) : r.after [] = r := rfl

@[simp] theorem after_mk (l₁ l₂ : List Event) (outcome : Except Failure α) (s : σ) :
    (⟨outcome, s, l₂⟩ : Result σ α).after l₁ = ⟨outcome, s, l₁ ++ l₂⟩ := rfl

theorem after_append (l₁ l₂ : List Event) (r : Result σ α) :
    r.after (l₁ ++ l₂) = (r.after l₂).after l₁ := by
  simp only [after, List.append_assoc]

@[simp] theorem andThen_ok (a : α) (s : σ) (l : List Event) (next : α → σ → Result σ β) :
    (⟨.ok a, s, l⟩ : Result σ α).andThen next = (next a s).after l := rfl

@[simp] theorem andThen_error (f : Failure) (s : σ) (l : List Event)
    (next : α → σ → Result σ β) :
    (⟨.error f, s, l⟩ : Result σ α).andThen next = ⟨.error f, s, l⟩ := rfl

@[simp] theorem andThen_after (l : List Event) (r : Result σ α) (next : α → σ → Result σ β) :
    (r.after l).andThen next = (r.andThen next).after l := by
  obtain ⟨outcome | a, s, l'⟩ := r
  · rfl
  · simp only [after_mk, andThen_ok, after_append]

/-- What goes on without changing the state leaves the state of the first part. -/
theorem state_andThen_of_forall (r : Result σ α) {next : α → σ → Result σ β}
    (h : ∀ a s, (next a s).state = s) : (r.andThen next).state = r.state := by
  obtain ⟨outcome | a, s, l⟩ := r
  · rfl
  · exact h a s

theorem andThen_assoc (r : Result σ α) (f : α → σ → Result σ β) (g : β → σ → Result σ γ) :
    (r.andThen f).andThen g = r.andThen fun a s => (f a s).andThen g := by
  obtain ⟨outcome | a, s, l⟩ := r
  · rfl
  · simp only [andThen_ok]
    obtain ⟨outcome' | b, s', l'⟩ := f a s
    · rfl
    · simp only [andThen_ok, after, List.append_assoc]

theorem andThen_pure (r : Result σ α) : (r.andThen fun a s => ⟨.ok a, s, []⟩) = r := by
  obtain ⟨outcome | a, s, l⟩ := r
  · rfl
  · simp only [andThen_ok, after, List.append_nil]

end Result

namespace Action

/-! ## Runs of elementary actions -/

@[simp] theorem pure_apply (a : α) (host : Host) (s : σ) :
    (pure a : Action σ α) host s = ⟨.ok a, s, []⟩ := rfl

@[simp] theorem bind_apply (x : Action σ α) (next : α → Action σ β) (host : Host) (s : σ) :
    (x >>= next) host s = (x host s).andThen fun a s' => next a host s' := rfl

@[simp] theorem map_apply (f : α → β) (x : Action σ α) (host : Host) (s : σ) :
    (f <$> x) host s = (x host s).andThen fun a s' => ⟨.ok (f a), s', []⟩ := rfl

@[simp] theorem fail_apply (f : Failure) (host : Host) (s : σ) :
    (fail f : Action σ α) host s = ⟨.error f, s, []⟩ := rfl

@[simp] theorem emit_apply (e : Event) (host : Host) (s : σ) :
    emit e host s = ⟨.ok (), s, [e]⟩ := rfl

@[simp] theorem log_apply (source : LogSource) (message : String) (host : Host) (s : σ) :
    log source message host s = ⟨.ok (), s, [.log source message]⟩ := rfl

@[simp] theorem host_apply (host : Host) (s : σ) :
    Action.host host s = ⟨.ok host, s, []⟩ := rfl

@[simp] theorem get_apply (host : Host) (s : σ) :
    (get : Action σ σ) host s = ⟨.ok s, s, []⟩ := rfl

@[simp] theorem modify_apply (f : σ → σ) (host : Host) (s : σ) :
    modify f host s = ⟨.ok (), f s, []⟩ := rfl

@[simp] theorem ofExcept_apply (outcome : Except Failure α) (host : Host) (s : σ) :
    ofExcept outcome host s = ⟨outcome, s, []⟩ := by
  cases outcome <;> rfl

/-! ## Runs of combined actions -/

@[simp] theorem attempt_apply (x : Action σ α) (host : Host) (s : σ) :
    x.attempt host s = ⟨.ok (x host s).outcome, (x host s).state, (x host s).events⟩ := rfl

@[simp] theorem mapError_ok (change : Failure → Failure) (a : α) :
    (Except.ok a).mapError change = .ok a := rfl

@[simp] theorem mapError_error (change : Failure → Failure) (f : Failure) :
    (Except.error f : Except Failure α).mapError change = .error (change f) := rfl

theorem mapError_eq_error {change : Failure → Failure} {outcome : Except Failure α} {f : Failure} :
    outcome.mapError change = .error f ↔ ∃ f', outcome = .error f' ∧ change f' = f := by
  cases outcome <;> simp

/-- A failure comes out of the first action, or out of the next one where the first has not
    failed. -/
theorem outcome_bind_eq_error {x : Action σ α} {next : α → Action σ β} {host : Host} {s : σ}
    {f : Failure} :
    ((x >>= next) host s).outcome = .error f ↔
      (x host s).outcome = .error f ∨ ∃ a, (x host s).outcome = .ok a ∧
        (next a host (x host s).state).outcome = .error f := by
  rw [bind_apply]
  cases h : x host s with
  | mk outcome s' l => cases outcome <;> simp

@[simp] theorem mapFailure_apply (x : Action σ α) (change : Failure → Failure) (host : Host)
    (s : σ) :
    x.mapFailure change host s =
      ⟨(x host s).outcome.mapError change, (x host s).state, (x host s).events⟩ := rfl

@[simp] theorem zoom_apply (part : τ → σ) (replace : σ → τ → τ) (x : Action σ α) (host : Host)
    (s : τ) :
    x.zoom part replace host s =
      ⟨(x host (part s)).outcome, replace (x host (part s)).state s,
        (x host (part s)).events⟩ := rfl

/-- A cleanup that comes to its end leaves the outcome as it was. -/
theorem ensuring_apply_of_ok {x : Action σ α} {cleanup : Action σ Unit} {host : Host} {s : σ}
    (h : (cleanup host (x host s).state).outcome = .ok ()) :
    x.ensuring cleanup host s =
      ⟨(x host s).outcome, (cleanup host (x host s).state).state,
        (x host s).events ++ (cleanup host (x host s).state).events⟩ := by
  simp only [ensuring, bind_apply, attempt_apply, Result.andThen_ok]
  cases hc : cleanup host (x host s).state with
  | mk outcome s' l =>
    rw [hc] at h
    simp only at h
    subst h
    simp only [Result.andThen_ok, ofExcept_apply, Result.after, List.append_nil]

/-- A cleanup that fails takes over. -/
theorem ensuring_apply_of_error {x : Action σ α} {cleanup : Action σ Unit} {host : Host} {s : σ}
    {f : Failure} (h : (cleanup host (x host s).state).outcome = .error f) :
    x.ensuring cleanup host s =
      ⟨.error f, (cleanup host (x host s).state).state,
        (x host s).events ++ (cleanup host (x host s).state).events⟩ := by
  simp only [ensuring, bind_apply, attempt_apply, Result.andThen_ok]
  cases hc : cleanup host (x host s).state with
  | mk outcome s' l =>
    rw [hc] at h
    simp only at h
    subst h
    simp only [Result.andThen_error, Result.after]

/-! ## The monad laws -/

@[ext] theorem ext {x y : Action σ α} (h : ∀ host s, x host s = y host s) : x = y :=
  funext fun host => funext fun s => h host s

theorem bind_assoc (x : Action σ α) (f : α → Action σ β) (g : β → Action σ γ) :
    x >>= f >>= g = x >>= fun a => f a >>= g := by
  ext host s
  exact Result.andThen_assoc _ _ _

theorem pure_bind (a : α) (f : α → Action σ β) : pure a >>= f = f a :=
  ext fun _ _ => rfl

theorem id_map (x : Action σ α) : id <$> x = x :=
  ext fun host s => Result.andThen_pure (x host s)

instance : LawfulMonad (Action σ) :=
  LawfulMonad.mk' _ id_map pure_bind bind_assoc

end Action

end LineShell
