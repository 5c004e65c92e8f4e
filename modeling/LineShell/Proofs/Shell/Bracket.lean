/-
  LineShell.Proofs.Shell.Bracket

  The two calls for a handler around a dispatched line.

  Running a tree asks for no handler, unless a script dispatches a line of its own.
  So the interrupt key is exposed before anything of the line is done and guarded
  after all of it, and there are no other calls (`execute_bracketed`).  What comes
  out is what came of the tree, except where one of the two calls fails: then it
  is the failure of the call.
-/

import LineShell.Proofs.Action.Similar
import LineShell.Proofs.Group.Events
import LineShell.Proofs.Redirect.Inversion
import LineShell.Proofs.Shell.Plain

namespace LineShell

/-- No call for a handler. -/
structure Machine.Unswitched (m : Machine) (l : List Event) (m' : Machine) : Prop where
  events : ∀ e ∈ l, e.isInstall = false
  handler : m'.handler = m.handler
  installCalls : m'.installCalls = m.installCalls

namespace Machine.Unswitched

variable {m m' : Machine} {l : List Event} {e : Event}

theorem isPath : IsPath Unswitched where
  nil _ := ⟨by simp, rfl, rfl⟩
  append h₁ h₂ :=
    { events := List.forall_mem_append.mpr ⟨h₁.events, h₂.events⟩
      handler := h₂.handler.trans h₁.handler
      installCalls := h₂.installCalls.trans h₁.installCalls }

theorem single (he : e.isInstall = false) (m : Machine) : m.Unswitched [e] m :=
  ⟨List.forall_mem_singleton.mpr he, rfl, rfl⟩

theorem of_calm (h : m.Calm l m') : m.Unswitched l m' := by
  obtain ⟨hcalm, hm⟩ := h
  refine ⟨fun e he => ?_, hm.handler, hm.installCalls⟩
  have hcalm := hcalm e he
  cases e <;> first | rfl | cases hcalm

theorem of_steady (hl : ∀ e ∈ l, e.isInstall = false) (hm : m.Steady m') : m.Unswitched l m' :=
  ⟨hl, hm.handler, hm.installCalls⟩

end Machine.Unswitched

/-! ## Groups of processes -/

namespace Group

variable (setting : Setting)

theorem starts_unswitched :
    Starts setting fun b l b' => b.machine.Unswitched l b'.machine where
  toIsPath := Machine.Unswitched.isPath.comap Block.machine
  start invocation host b := by
    obtain ⟨hattempt, hm⟩ := (start_spec setting invocation host b).attempt
    refine .of_steady ?_ hm
    exact hattempt.forall_mem (fun _ => rfl) (fun _ => rfl) (fun _ => rfl) rfl fun _ => rfl
  pipe host b := by
    simp only [Action.inBlock, Action.zoom_apply, Machine.pipe_apply]
    split <;> exact ⟨List.forall_mem_singleton.mpr rfl, rfl, rfl⟩
  close b _ := .single rfl b.machine

theorem tends_unswitched :
    Tends setting fun b l b' => b.machine.Unswitched l b'.machine where
  toIsPath := Machine.Unswitched.isPath.comap Block.machine
  log b _ _ := .single rfl b.machine
  reap i host b := by
    have htending := (tends_isTending setting).reap i host b
    have hspec := reap_spec setting i host b
    generalize reap setting i host b = r at hspec htending
    have hevents : ∀ e ∈ r.events, e.isInstall = false := by
      intro e he
      have htending := htending e he
      cases e <;> first | rfl | cases htending
    cases hspec with
    | absent => exact Machine.Unswitched.isPath.nil b.machine
    | again => exact Machine.Unswitched.isPath.nil b.machine
    | ended _ _ _ _ hm _ => exact .of_steady hevents hm
  terminate {b _ _} _ _ := .single rfl b.machine

end Group

/-! ## Trees -/

namespace Shell

variable {shell : Shell}

theorem foreground_unswitched (setting : Setting) (invocation : Invocation) :
    (Group.foreground setting invocation).Keeps Machine.Unswitched :=
  Group.foreground_keeps (Group.starts_unswitched setting) (Group.tends_unswitched setting)
    invocation

theorem redirect_unswitched (setting : Setting) (source : String) (mode : OpenMode)
    (target : String) :
    (Redirect.run setting source mode target).Keeps Machine.Unswitched := by
  refine Redirect.run_keeps Machine.Unswitched.isPath ?_ ?_ ?_ ?_
    fun _ _ => foreground_unswitched setting _
  · exact fun m => .single rfl m
  · exact fun _ => ⟨List.forall_mem_singleton.mpr rfl, rfl, rfl⟩
  · exact fun m => .single rfl m
  · exact fun m _ => .single rfl m

theorem pipeline_unswitched (setting : Setting) (stages : List (List String)) :
    (Pipeline.run setting stages).Keeps Machine.Unswitched :=
  Pipeline.run_keeps (Group.starts_unswitched setting) (Group.tends_unswitched setting) stages

/-- An action of the machine is none of the governor. -/
theorem inSession_unswitched {α : Type} {x : Action Machine α}
    (hx : x.Keeps Machine.Unswitched) (host : Host) :
    x.inSession.Meets host fun s l _ s' =>
      s.machine.Unswitched l s'.machine ∧ s'.governor = s.governor :=
  fun s => ⟨hx host s.machine, rfl⟩

/-- A shell whose scripts dispatch no lines asks for no handler while it runs a tree. -/
theorem fulfils_unswitched (hscripts : ¬ shell.Redispatches) (host : Host) :
    shell.Fulfils host fun s l _ s' =>
      s.machine.Unswitched l s'.machine ∧ s'.governor = s.governor where
  nil s := ⟨Machine.Unswitched.isPath.nil s.machine, rfl⟩
  append h₁ h₂ := ⟨Machine.Unswitched.isPath.append h₁.1 h₂.1, h₂.2.trans h₁.2⟩
  caught _ h := h
  raised s _ _ := ⟨Machine.Unswitched.isPath.nil s.machine, rfl⟩
  log s _ _ := ⟨.single rfl s.machine, rfl⟩
  failed s _ := ⟨Machine.Unswitched.isPath.nil s.machine, rfl⟩
  call s _ _ _ := ⟨.single rfl s.machine, rfl⟩
  writeLine text := inSession_unswitched
    ((writeLine_calm shell.setting text).mono fun _ _ _ => .of_calm) host
  print text := inSession_unswitched
    ((Machine.write_calm _ text).mono fun _ _ _ => .of_calm) host
  builtin command args text := inSession_unswitched
    (builtin_keeps (fun _ _ _ => .of_calm)
      (fun _ _ => foreground_unswitched shell.setting _) command args text) host
  foreground _ _ := inSession_unswitched (foreground_unswitched shell.setting _) host
  redirect source mode target := inSession_unswitched
    (redirect_unswitched shell.setting source mode target) host
  pipeline stages := inSession_unswitched (pipeline_unswitched shell.setting stages) host
  exposed hredispatches := absurd hredispatches hscripts

/-! ## Lines -/

/-- The two calls for a handler around what a line does. -/
structure Bracketed (shell : Shell) (line : String) (host : Host) (s : Session) : Prop where
  /-- The key cannot be exposed: nothing is run. -/
  unexposed : ∀ f, host.installFailures s.machine.installCalls = some f →
    let r := shell.execute line host s
    r.outcome = .error f ∧ r.state = s.refusedInstall ∧
      withoutLog r.events = [.signal shell.policy.signum shell.policy.exposedHandler false]
  /-- The key cannot be guarded again: this is what comes out. -/
  unguarded : ∀ f, host.installFailures s.machine.installCalls = none →
    host.installFailures (s.machine.installCalls + 1) = some f →
    let r := shell.execute line host s
    let ran := shell.run (Tree.parse line) host (Governor.exposedSession shell.policy s)
    r.outcome = .error f ∧ r.state = ran.state.refusedInstall ∧
      r.state.governor = s.governor.enter .exposed ∧
      withoutLog r.events = .signal shell.policy.signum shell.policy.exposedHandler true ::
        (withoutLog ran.events ++ [.signal shell.policy.signum Signal.Handler.ignore false])
  /-- One call comes before all that the line does, and one after it. -/
  guarded : host.installFailures s.machine.installCalls = none →
    host.installFailures (s.machine.installCalls + 1) = none →
    let r := shell.execute line host s
    let ran := shell.run (Tree.parse line) host (Governor.exposedSession shell.policy s)
    r.outcome = ran.outcome ∧ r.state.machine = ran.state.machine.installed .ignore ∧
      r.state.governor.mode = some .guarded ∧
      r.state.governor.transitions = s.governor.transitions ++ [.exposed, .guarded] ∧
      r.events.filter Event.isInstall =
        [.signal shell.policy.signum shell.policy.exposedHandler true,
          .signal shell.policy.signum Signal.Handler.ignore true] ∧
      withoutLog r.events = .signal shell.policy.signum shell.policy.exposedHandler true ::
        (withoutLog ran.events ++ [.signal shell.policy.signum Signal.Handler.ignore true])
  /-- There are no calls in between. -/
  between : ∀ e ∈ (shell.run (Tree.parse line) host
    (Governor.exposedSession shell.policy s)).events, e.isInstall = false

/-- Dispatching a line exposes the interrupt key once, before all else, and guards it once,
    after all else, whatever the line is and however it ends. -/
theorem execute_bracketed (shell : Shell)
    (hscripts : ∀ name actions, shell.commands.find? name = some (.script actions) →
      ∀ line, ScriptAction.execute line ∉ actions)
    (line : String) (host : Host) (s : Session) : shell.Bracketed line host s := by
  have hnone : ¬ shell.Redispatches := by
    rintro ⟨name, actions, line, hfind, hline⟩
    exact hscripts name actions hfind line hline
  have hfulfils := (fulfils_unswitched hnone host).run (Tree.parse line)
    (Governor.exposedSession shell.policy s)
  have hexecute := execute_apply shell line host s
  generalize hran : shell.run (Tree.parse line) host (Governor.exposedSession shell.policy s) = ran
    at hfulfils
  obtain ⟨hran', hgovernor⟩ := hfulfils
  -- The second call is the next one after the first, for the tree makes none.
  have hcalls : ran.state.machine.installCalls = s.machine.installCalls + 1 := hran'.installCalls
  constructor
  case unexposed =>
    intro f hf
    rw [hexecute, Governor.exposed_apply_of_unexposed hf]
    exact ⟨rfl, rfl, rfl⟩
  case unguarded =>
    intro f hexposed hf
    rw [← hcalls] at hf
    obtain ⟨message, hrun⟩ := Governor.exposed_apply_of_unguarded hexposed hran hf
    rw [hexecute, hrun, hran]
    refine ⟨rfl, rfl, hgovernor, ?_⟩
    simp [withoutLog, Event.isLog]
  case guarded =>
    intro hexposed hguarded
    rw [← hcalls] at hguarded
    -- The tree leaves the governor as the first call has made it.
    obtain ⟨message, message', hrun⟩ := Governor.exposed_apply_of_guarded hexposed hran hguarded
    rw [hexecute, hrun, hran]
    refine ⟨rfl, rfl, rfl, ?_, ?_, ?_⟩
    · show ran.state.governor.transitions ++ [Governor.Mode.guarded] = _
      rw [hgovernor]
      exact List.append_assoc ..
    · have hbetween : ran.events.filter Event.isInstall = [] := by
        rw [List.filter_eq_nil_iff]
        intro e he
        rw [hran'.events e he]
        exact Bool.false_ne_true
      show _ :: (ran.events ++ [_, Event.log _ _]).filter Event.isInstall = _
      rw [List.filter_append, hbetween]
      rfl
    · simp [withoutLog, Event.isLog]
  case between =>
    rw [hran]
    exact hran'.events

/-- A conditional whose first alternative breaks out of it, on a host that refuses the second
    call for a handler. -/
theorem execute_bracketed_broken :
    let actions : List ScriptAction := [.print "x", .raise (.fault .value "broken")]
    let shell : Shell := { commands := builtinCommands.insert "break" (.script actions) }
    let host : Host := { installFailures := fun n => if n = 1 then some (.systemText "no") else none }
    (∀ name actions, shell.commands.find? name = some (.script actions) →
      ∀ line, ScriptAction.execute line ∉ actions) ∧
    shell.Bracketed "break || echo next" host { machine := {} } := by
  intro actions shell host
  have hscripts : ∀ name actions, shell.commands.find? name = some (.script actions) →
      ∀ line, ScriptAction.execute line ∉ actions := by
    intro name actions' hfind line
    have hentry := Table.mem_entries_of_find? hfind
    have hentries : shell.commands.entries
        = builtinCommands.entries ++ [("break", .script actions)] := by decide
    rw [hentries, List.mem_append, List.mem_singleton] at hentry
    rcases hentry with hbuiltin | hscript
    · simp [builtinCommands, Builtin.all] at hbuiltin
    · cases hscript
      simp [actions]
  exact ⟨hscripts, execute_bracketed shell hscripts _ host _⟩

end Shell

end LineShell
