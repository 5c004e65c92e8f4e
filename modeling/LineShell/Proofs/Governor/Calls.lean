/-
  LineShell.Proofs.Governor.Calls

  What the calls of a governor come to.

  Guarding, exposing and restoring all do the same: they ask the system for a
  handler, and where it is put in place the governor changes.  `Switched` says what
  comes of this; the three calls differ in the handler and in the governor that
  they lead to.  A handler that the system refuses leaves everything as it was.
-/

import LineShell.Action.Lemmas
import LineShell.Governor.Switch

namespace LineShell

/-- Whether the event is a call for a handler. -/
def Event.isInstall : Event → Bool
  | .signal .. => true
  | _ => false

theorem filter_isInstall_eq_nil {l : List Event} (h : ∀ e ∈ l, e.isInstall = false) :
    l.filter Event.isInstall = [] :=
  List.filter_eq_nil_iff.mpr fun e he => by simp [h e he]

namespace Machine

/-- The machine after a call for a handler that was refused. -/
def refusedInstall (m : Machine) : Machine := { m with installCalls := m.installCalls + 1 }

/-- The machine after a handler has been put in place. -/
def installed (m : Machine) (handler : Signal.Handler) : Machine :=
  { m with installCalls := m.installCalls + 1, handler := handler }

variable {host : Host} {m : Machine}

theorem install_apply_of_some {f : Failure} (h : host.installFailures m.installCalls = some f)
    (signum : Int) (handler : Signal.Handler) :
    install signum handler host m =
      ⟨.error f, m.refusedInstall, [.signal signum handler false]⟩ := by
  simp only [install, Action.bind_apply, Action.get_apply, Action.modify_apply,
    Action.host_apply, Result.andThen_ok, h]
  rfl

theorem install_apply_of_none (h : host.installFailures m.installCalls = none) (signum : Int)
    (handler : Signal.Handler) :
    install signum handler host m =
      ⟨.ok m.handler, m.installed handler, [.signal signum handler true]⟩ := by
  simp only [install, Action.bind_apply, Action.get_apply, Action.modify_apply,
    Action.host_apply, Result.andThen_ok, h]
  rfl

end Machine

/-- The session after a call for a handler that was refused. -/
def Session.refusedInstall (s : Session) : Session := { s with machine := s.machine.refusedInstall }

namespace Governor

/-- The governor after a guard that has replaced a handler. -/
def guarded (g : Governor) (replaced : Signal.Handler) : Governor :=
  { g with saved := some (g.saved.getD replaced) }.enter .guarded

/-- The governor after the handler that it kept has been restored. -/
def restored (g : Governor) : Governor := { g with saved := none, mode := none }

/-- What a call for a handler comes to that leads to another governor. -/
inductive Switched (policy : Policy) (host : Host) (s : Session) (handler : Signal.Handler)
    (next : Governor) : Result Session Unit → Prop
  | refused {f : Failure} (hf : host.installFailures s.machine.installCalls = some f) :
      Switched policy host s handler next
        ⟨.error f, s.refusedInstall, [.signal policy.signum handler false]⟩
  | accepted (message : String) (h : host.installFailures s.machine.installCalls = none) :
      Switched policy host s handler next
        ⟨.ok (), ⟨s.machine.installed handler, next⟩,
          [.signal policy.signum handler true, .log .signals message]⟩

namespace Switched

variable {policy : Policy} {host : Host} {s : Session} {handler : Signal.Handler}
  {next : Governor} {r : Result Session Unit}

theorem eq_of_some (h : Switched policy host s handler next r) {f : Failure}
    (hf : host.installFailures s.machine.installCalls = some f) :
    r = ⟨.error f, s.refusedInstall, [.signal policy.signum handler false]⟩ := by
  cases h with
  | refused hf' =>
    rw [hf] at hf'
    cases hf'
    rfl
  | accepted _ hnone =>
    rw [hf] at hnone
    cases hnone

theorem eq_of_none (h : Switched policy host s handler next r)
    (hnone : host.installFailures s.machine.installCalls = none) :
    ∃ message, r = ⟨.ok (), ⟨s.machine.installed handler, next⟩,
      [.signal policy.signum handler true, .log .signals message]⟩ := by
  cases h with
  | refused hf =>
    rw [hnone] at hf
    cases hf
  | accepted message _ => exact ⟨message, rfl⟩

end Switched

variable (policy : Policy) (host : Host) (s : Session)

theorem guard_switched :
    Switched policy host s .ignore (s.governor.guarded s.machine.handler)
      (guard policy host s) := by
  simp only [guard, Action.inSession, Action.bind_apply, Action.zoom_apply]
  cases h : host.installFailures s.machine.installCalls with
  | some f =>
    rw [Machine.install_apply_of_some h]
    exact .refused h
  | none =>
    rw [Machine.install_apply_of_none h]
    exact .accepted _ h

theorem expose_switched :
    Switched policy host s policy.exposedHandler (s.governor.enter .exposed)
      (expose policy host s) := by
  simp only [expose, Action.inSession, Action.bind_apply, Action.zoom_apply]
  cases h : host.installFailures s.machine.installCalls with
  | some f =>
    rw [Machine.install_apply_of_some h]
    exact .refused h
  | none =>
    rw [Machine.install_apply_of_none h]
    exact .accepted _ h

theorem restore_apply_of_none (h : s.governor.saved = none) :
    restore policy host s = ⟨.ok (), s, []⟩ := by
  simp only [restore, Action.bind_apply, Action.get_apply, Result.andThen_ok, h]
  rfl

theorem restore_switched {previous : Signal.Handler} (h : s.governor.saved = some previous) :
    Switched policy host s previous s.governor.restored (restore policy host s) := by
  simp only [restore, Action.inSession, Action.bind_apply, Action.get_apply, Result.andThen_ok,
    h, Action.zoom_apply]
  cases hf : host.installFailures s.machine.installCalls with
  | some f =>
    rw [Machine.install_apply_of_some hf]
    exact .refused hf
  | none =>
    rw [Machine.install_apply_of_none hf]
    exact .accepted _ hf

/-! ## Blocks -/

/-- The session after the key has been exposed. -/
def exposedSession : Session :=
  ⟨s.machine.installed policy.exposedHandler, s.governor.enter .exposed⟩

variable {policy host s} {α : Type} {f : Failure}

/-- A block that cannot be exposed is not run. -/
theorem exposed_apply_of_unexposed (hf : host.installFailures s.machine.installCalls = some f)
    (body : Action Session α) :
    exposed policy body host s =
      ⟨.error f, s.refusedInstall, [.signal policy.signum policy.exposedHandler false]⟩ := by
  have hexpose := (expose_switched policy host s).eq_of_some hf
  rw [exposed, Action.bind_apply, hexpose]
  rfl

/-- A block that cannot be guarded again comes to the failure of that. -/
theorem exposed_apply_of_unguarded
    (hexposed : host.installFailures s.machine.installCalls = none) {body : Action Session α}
    {ran : Result Session α} (hran : body host (exposedSession policy s) = ran)
    (hf : host.installFailures ran.state.machine.installCalls = some f) :
    ∃ message, exposed policy body host s =
      ⟨.error f, ran.state.refusedInstall,
        .signal policy.signum policy.exposedHandler true :: .log .signals message ::
          (ran.events ++ [.signal policy.signum Signal.Handler.ignore false])⟩ := by
  obtain ⟨message, hexpose⟩ := (expose_switched policy host s).eq_of_none hexposed
  -- The failure of the guard takes the place of what came of the body.
  have hguard := (guard_switched policy host ran.state).eq_of_some hf
  refine ⟨message, ?_⟩
  rw [exposed, Action.bind_apply, hexpose, Result.andThen_ok, ← exposedSession,
    Action.ensuring_apply_of_error (f := f) (by rw [hran, hguard]), hran, hguard]
  rfl

/-- A block that is guarded again comes to what its actions have come to. -/
theorem exposed_apply_of_guarded
    (hexposed : host.installFailures s.machine.installCalls = none) {body : Action Session α}
    {ran : Result Session α} (hran : body host (exposedSession policy s) = ran)
    (hguarded : host.installFailures ran.state.machine.installCalls = none) :
    ∃ message message', exposed policy body host s =
      ⟨ran.outcome, ⟨ran.state.machine.installed .ignore,
          ran.state.governor.guarded ran.state.machine.handler⟩,
        .signal policy.signum policy.exposedHandler true :: .log .signals message ::
          (ran.events ++
            [.signal policy.signum Signal.Handler.ignore true, .log .signals message'])⟩ := by
  obtain ⟨message, hexpose⟩ := (expose_switched policy host s).eq_of_none hexposed
  obtain ⟨message', hguard⟩ := (guard_switched policy host ran.state).eq_of_none hguarded
  refine ⟨message, message', ?_⟩
  rw [exposed, Action.bind_apply, hexpose, Result.andThen_ok, ← exposedSession,
    Action.ensuring_apply_of_ok (by rw [hran, hguard]), hran, hguard]
  rfl

/-- On a host that refuses no handler a block is always guarded again. -/
theorem exposed_apply_of_installs (hinstalls : ∀ n, host.installFailures n = none)
    (policy : Policy) (body : Action Session α) (s : Session) :
    let ran := body host (exposedSession policy s)
    ∃ message message', exposed policy body host s =
      ⟨ran.outcome, ⟨ran.state.machine.installed .ignore,
          ran.state.governor.guarded ran.state.machine.handler⟩,
        .signal policy.signum policy.exposedHandler true :: .log .signals message ::
          (ran.events ++
            [.signal policy.signum Signal.Handler.ignore true, .log .signals message'])⟩ :=
  exposed_apply_of_guarded (hinstalls _) rfl (hinstalls _)

/-- Of events that are neither calls for handlers nor reports, a block has those of its actions,
    and none where it cannot be exposed. -/
theorem filter_events_exposed {p : Event → Bool}
    (hp : ∀ e, e.isInstall = true ∨ e.isLog = true → p e = false) (policy : Policy)
    (body : Action Session α) (host : Host) (s : Session) :
    (exposed policy body host s).events.filter p =
      if host.installFailures s.machine.installCalls = none then
        (body host (exposedSession policy s)).events.filter p
      else [] := by
  have hinstall : ∀ signum handler ok, p (.signal signum handler ok) = false :=
    fun _ _ _ => hp _ (.inl rfl)
  have hlog : ∀ source message, p (.log source message) = false := fun _ _ => hp _ (.inr rfl)
  cases hexposed : host.installFailures s.machine.installCalls with
  | some f =>
    rw [exposed_apply_of_unexposed hexposed, if_neg (by simp)]
    simp [hinstall]
  | none =>
    rw [if_pos rfl]
    cases hguarded :
        host.installFailures (body host (exposedSession policy s)).state.machine.installCalls with
    | some f =>
      obtain ⟨message, hrun⟩ := exposed_apply_of_unguarded hexposed rfl hguarded
      rw [hrun]
      simp [hinstall, hlog]
    | none =>
      obtain ⟨message, message', hrun⟩ := exposed_apply_of_guarded hexposed rfl hguarded
      rw [hrun]
      simp [hinstall, hlog]

end Governor

end LineShell
