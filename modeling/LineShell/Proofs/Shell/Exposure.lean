/-
  LineShell.Proofs.Shell.Exposure

  Which handler is in place when a process is started.

  Dispatching a line exposes the interrupt key and guards it again.  A script may
  dispatch further lines, so that dispatches stand inside of each other (`Nested`).
  A governor does not count them: the end of an inner dispatch guards the key, and
  the rest of the outer one runs guarded.  So a process is started exposed exactly
  if no line has been dispatched before it inside of the dispatch that it belongs
  to (`execute_start_handler`), and this does not always hold
  (`execute_starts_guarded`).
-/

import LineShell.Proofs.Pipeline.Interrupts
import LineShell.Proofs.Shell.Bracket

namespace LineShell

/-! ## The handler in place -/

/-- The handler in place after an event, given the one before it. -/
def Event.handlerAfter (handler : Signal.Handler) : Event → Signal.Handler
  | .signal _ next true => next
  | _ => handler

/-- The handler in place after events, given the one before them. -/
def handlerAfter (handler : Signal.Handler) (l : List Event) : Signal.Handler :=
  l.foldl Event.handlerAfter handler

@[simp] theorem handlerAfter_nil (handler : Signal.Handler) : handlerAfter handler [] = handler :=
  rfl

@[simp] theorem handlerAfter_cons (handler : Signal.Handler) (e : Event) (l : List Event) :
    handlerAfter handler (e :: l) = handlerAfter (e.handlerAfter handler) l := rfl

@[simp] theorem handlerAfter_append (handler : Signal.Handler) (l₁ l₂ : List Event) :
    handlerAfter handler (l₁ ++ l₂) = handlerAfter (handlerAfter handler l₁) l₂ :=
  List.foldl_append

theorem Event.handlerAfter_of_not_isInstall {e : Event} (he : e.isInstall = false)
    (handler : Signal.Handler) : e.handlerAfter handler = handler := by
  cases e <;> first | rfl | cases he

theorem handlerAfter_of_forall {l : List Event} (h : ∀ e ∈ l, e.isInstall = false)
    (handler : Signal.Handler) : handlerAfter handler l = handler := by
  induction l with
  | nil => rfl
  | cons e l ih =>
    rw [handlerAfter_cons, Event.handlerAfter_of_not_isInstall (h e List.mem_cons_self)]
    exact ih fun e' he' => h e' (List.mem_cons_of_mem e he')

theorem Event.isInstall_of_isStart {e : Event} (he : e.isStart = true) : e.isInstall = false := by
  cases e <;> first | rfl | cases he

/-! ## Dispatches inside of each other -/

variable {policy : Governor.Policy} {l l₁ l₂ before after : List Event} {e : Event}

/-- The event that begins a dispatch. -/
def Governor.Policy.exposure (policy : Governor.Policy) : Event :=
  .signal policy.signum policy.exposedHandler true

/-- The event that ends a dispatch. -/
def Governor.Policy.guarding (policy : Governor.Policy) : Event :=
  .signal policy.signum Signal.Handler.ignore true

/-- Events that are no calls for a handler, and whole dispatches. -/
inductive Nested (policy : Governor.Policy) : List Event → Prop
  | nil : Nested policy []
  | other {e : Event} {l : List Event} (he : e.isInstall = false) (hl : Nested policy l) :
      Nested policy (e :: l)
  | dispatch {body l : List Event} (hbody : Nested policy body) (hl : Nested policy l) :
      Nested policy (policy.exposure :: (body ++ policy.guarding :: l))

namespace Nested

theorem of_forall (h : ∀ e ∈ l, e.isInstall = false) : Nested policy l := by
  induction l with
  | nil => exact .nil
  | cons e l ih =>
    exact .other (h e List.mem_cons_self) (ih fun e' he' => h e' (List.mem_cons_of_mem e he'))

theorem append (h₁ : Nested policy l₁) (h₂ : Nested policy l₂) : Nested policy (l₁ ++ l₂) := by
  induction h₁ with
  | nil => exact h₂
  | other he _ ih => exact .other he ih
  | dispatch hbody _ _ ih =>
    rw [List.cons_append, List.append_assoc, List.cons_append]
    exact .dispatch hbody ih

/-- Where a dispatch has ended, the key is guarded, and otherwise all is as it was. -/
theorem handlerAfter_eq (h : Nested policy l) (handler : Signal.Handler) :
    handlerAfter handler l = if l.any Event.isInstall then .ignore else handler := by
  induction h generalizing handler with
  | nil => rfl
  | other he _ ih =>
    rw [handlerAfter_cons, Event.handlerAfter_of_not_isInstall he, ih, List.any_cons, he,
      Bool.false_or]
  | @dispatch body l _ _ _ ih =>
    have hinstall : (policy.exposure :: (body ++ policy.guarding :: l)).any Event.isInstall
        = true := rfl
    rw [hinstall, if_pos rfl, handlerAfter_cons, handlerAfter_append, handlerAfter_cons, ih]
    exact ite_self _

/-- An event lies outside of all dispatches, or inside of one that begins before it and has not
    ended: behind the beginning there are whole dispatches only. -/
theorem of_append_cons (h : Nested policy l) (he : e.isInstall = false)
    (hl : l = before ++ e :: after) :
    Nested policy before ∨
      ∃ outside since, before = outside ++ policy.exposure :: since ∧ Nested policy since := by
  induction h generalizing before after with
  | nil => simp at hl
  | @other e' l he' _ ih =>
    cases before with
    | nil => exact .inl .nil
    | cons _ before =>
      rw [List.cons_append, List.cons.injEq] at hl
      obtain ⟨rfl, htail⟩ := hl
      rcases ih htail with hnested | ⟨outside, since, rfl, hsince⟩
      · exact .inl (.other he' hnested)
      · exact .inr ⟨e' :: outside, since, rfl, hsince⟩
  | @dispatch body l hbody _ ihbody ih =>
    cases before with
    | nil =>
      obtain ⟨rfl, -⟩ := List.cons.inj hl
      cases he
    | cons _ before =>
      rw [List.cons_append, List.cons.injEq] at hl
      obtain ⟨rfl, htail⟩ := hl
      rcases eq_append_cons_of_append htail with ⟨rest, hbefore, -⟩ | ⟨rest, rfl, hrest⟩
      -- The event is one of the body: this dispatch has not ended yet.
      · right
        rcases ihbody hbefore with hnested | ⟨outside, since, rfl, hsince⟩
        · exact ⟨[], before, rfl, hnested⟩
        · exact ⟨policy.exposure :: outside, since, rfl, hsince⟩
      -- The event lies behind the whole dispatch.
      · cases rest with
        | nil =>
          obtain ⟨rfl, -⟩ := List.cons.inj hrest
          cases he
        | cons _ rest =>
          rw [List.cons_append, List.cons.injEq] at hrest
          obtain ⟨rfl, hbehind⟩ := hrest
          rcases ih hbehind with hnested | ⟨outside, since, rfl, hsince⟩
          · exact .inl (.dispatch hbody hnested)
          · refine .inr ⟨policy.exposure :: (body ++ policy.guarding :: outside), since, ?_, hsince⟩
            rw [List.cons_append, List.append_assoc, List.cons_append]

end Nested

/-! ## What a shell does -/

/-- Dispatches are whole, and the handler in place is the one that was put there last. -/
def Nesting (policy : Governor.Policy) : Contract Session := fun s l _ s' =>
  Nested policy l ∧ s'.machine.handler = handlerAfter s.machine.handler l

theorem Nesting.of_unswitched {s s' : Session} (h : s.machine.Unswitched l s'.machine)
    (failure? : Option Failure) : Nesting policy s l failure? s' :=
  ⟨.of_forall h.events, by rw [handlerAfter_of_forall h.events, h.handler]⟩

namespace Shell

variable {shell : Shell} {host : Host}

theorem inSession_nesting {α : Type} {x : Action Machine α} (hx : x.Keeps Machine.Unswitched)
    (host : Host) : x.inSession.Meets host (Nesting policy) :=
  fun s => .of_unswitched (hx host s.machine) _

/-- A block that is run exposed is one whole dispatch. -/
theorem exposed_nesting (hinstalls : ∀ n, host.installFailures n = none)
    {body : Action Session Unit} (hbody : body.Meets host (Nesting policy)) :
    (Governor.exposed policy body).Meets host (Nesting policy) := by
  intro s
  obtain ⟨hran, -⟩ := hbody (Governor.exposedSession policy s)
  obtain ⟨message, message', hrun⟩ := Governor.exposed_apply_of_installs hinstalls policy body s
  rw [hrun]
  refine ⟨.dispatch (.other rfl hran) (.other rfl .nil), ?_⟩
  -- The last call for a handler is the one that guards.
  simp only [handlerAfter_cons, handlerAfter_append]
  rfl

theorem fulfils_nesting (shell : Shell) (hinstalls : ∀ n, host.installFailures n = none) :
    shell.Fulfils host (Nesting shell.policy) where
  nil _ := ⟨.nil, rfl⟩
  append h₁ h₂ := ⟨h₁.1.append h₂.1, by rw [handlerAfter_append, ← h₁.2, h₂.2]⟩
  caught _ h := h
  raised _ _ _ := ⟨.nil, rfl⟩
  log _ _ _ := ⟨.other rfl .nil, rfl⟩
  failed _ _ := ⟨.nil, rfl⟩
  call _ _ _ _ := ⟨.other rfl .nil, rfl⟩
  writeLine text := inSession_nesting
    ((writeLine_calm shell.setting text).mono fun _ _ _ => .of_calm) host
  print text := inSession_nesting
    ((Machine.write_calm _ text).mono fun _ _ _ => .of_calm) host
  builtin command args text := inSession_nesting
    (builtin_keeps (fun _ _ _ => .of_calm)
      (fun _ _ => foreground_unswitched shell.setting _) command args text) host
  foreground _ _ := inSession_nesting (foreground_unswitched shell.setting _) host
  redirect source mode target := inSession_nesting
    (redirect_unswitched shell.setting source mode target) host
  pipeline stages := inSession_nesting (pipeline_unswitched shell.setting stages) host
  exposed _ _ hbody := exposed_nesting hinstalls hbody

/-! ## Lines -/

/-- Every process is started inside of a dispatch, exposed if no other one has ended inside of it
    before, and guarded if one has. -/
def StartsInside (policy : Governor.Policy) (handler : Signal.Handler) (l : List Event) : Prop :=
  ∀ before e after, l = before ++ e :: after → e.isStart = true →
    ∃ outside since, before = outside ++ policy.exposure :: since ∧ Nested policy since ∧
      handlerAfter handler before =
        if since.any Event.isInstall then .ignore else policy.exposedHandler

/-- Every process is started exposed. -/
def StartsExposed (policy : Governor.Policy) (handler : Signal.Handler) (l : List Event) : Prop :=
  ∀ before e after, l = before ++ e :: after → e.isStart = true →
    handlerAfter handler before = policy.exposedHandler

/-- The events of a dispatch, in which all that starts processes is done in the body. -/
def Dispatch (policy : Governor.Policy) (body l : List Event) : Prop :=
  ∃ first last, l = first ++ policy.exposure :: (body ++ last) ∧
    ∀ e ∈ first ++ last, e.isStart = false

namespace Dispatch

variable {body : List Event}

/-- The starts of a dispatch are those of its body. -/
theorem exists_eq_of_start (h : Dispatch policy body l) (hl : l = before ++ e :: after)
    (he : e.isStart = true) :
    ∃ first rest tail, before = first ++ policy.exposure :: rest ∧ body = rest ++ e :: tail := by
  obtain ⟨first, last, hevents, hstart⟩ := h
  have hno : e ∉ first ++ last := by
    intro hmem
    rw [hstart e hmem] at he
    cases he
  rw [hevents] at hl
  rcases eq_append_cons_of_append hl with ⟨rest, rfl, -⟩ | ⟨rest, rfl, hrest⟩
  · exact absurd (by simp) hno
  · cases rest with
    | nil =>
      obtain ⟨rfl, -⟩ := List.cons.inj hrest
      cases he
    | cons _ rest =>
      rw [List.cons_append, List.cons.injEq] at hrest
      obtain ⟨rfl, hbehind⟩ := hrest
      rcases eq_append_cons_of_append hbehind with ⟨tail, hbody, -⟩ | ⟨_, -, rfl⟩
      · exact ⟨first, rest, tail, rfl, hbody⟩
      · exact absurd (by simp) hno

theorem startsInside (h : Dispatch policy body l) (hbody : Nested policy body)
    (handler : Signal.Handler) : StartsInside policy handler l := by
  intro before e after hl he
  obtain ⟨first, rest, tail, rfl, hrest⟩ := h.exists_eq_of_start hl he
  have hinside : ∃ outside since, first ++ policy.exposure :: rest
      = outside ++ policy.exposure :: since ∧ Nested policy since := by
    rcases hbody.of_append_cons (Event.isInstall_of_isStart he) hrest with
      hsince | ⟨outside, since, rfl, hsince⟩
    · exact ⟨first, rest, rfl, hsince⟩
    · exact ⟨first ++ policy.exposure :: outside, since, by simp, hsince⟩
  obtain ⟨outside, since, houtside, hsince⟩ := hinside
  refine ⟨outside, since, houtside, hsince, ?_⟩
  -- Whatever was in place before, the exposure has replaced it.
  rw [houtside, handlerAfter_append, handlerAfter_cons, hsince.handlerAfter_eq]
  rfl

theorem startsExposed (h : Dispatch policy body l) (hbody : ∀ e ∈ body, e.isInstall = false)
    (handler : Signal.Handler) : StartsExposed policy handler l := by
  intro before e after hl he
  obtain ⟨first, rest, tail, rfl, rfl⟩ := h.exists_eq_of_start hl he
  have hrest : ∀ e ∈ rest, e.isInstall = false := fun e he => hbody e (by simp [he])
  rw [handlerAfter_append, handlerAfter_cons, handlerAfter_of_forall hrest]
  rfl

end Dispatch

/-- What the tree of a line does stands between the two calls for a handler. -/
theorem execute_dispatch (shell : Shell) (hinstalls : ∀ n, host.installFailures n = none)
    (line : String) (s : Session) :
    ∃ message, Dispatch shell.policy (.log .signals message ::
        (shell.run (Tree.parse line) host (Governor.exposedSession shell.policy s)).events)
      (shell.execute line host s).events := by
  obtain ⟨message, message', hrun⟩ := Governor.exposed_apply_of_installs hinstalls shell.policy
    (shell.run (Tree.parse line)) s
  rw [execute_apply, hrun]
  refine ⟨message, [_], [shell.policy.guarding, .log .signals message'], rfl, ?_⟩
  simp [Event.isStart, Governor.Policy.guarding]

/-- The handler that the processes of a dispatched line are started under, however deep scripts
    dispatch lines inside of each other: the end of an inner dispatch guards the key for the rest
    of the outer one.  Where no script dispatches lines, all processes are started exposed. -/
theorem execute_start_handler (shell : Shell) (host : Host)
    (hinstalls : ∀ n, host.installFailures n = none) (line : String) (s : Session) :
    let r := shell.execute line host s
    StartsInside shell.policy s.machine.handler r.events ∧
      r.state.machine.handler = handlerAfter s.machine.handler r.events ∧
      (¬ shell.Redispatches → StartsExposed shell.policy s.machine.handler r.events) := by
  intro r
  have htree := (fulfils_nesting shell hinstalls).run (Tree.parse line)
  obtain ⟨message, hdispatch⟩ := execute_dispatch shell hinstalls line s
  obtain ⟨hnested, -⟩ := htree (Governor.exposedSession shell.policy s)
  refine ⟨hdispatch.startsInside (.other rfl hnested) _, ?_, fun hscripts => ?_⟩
  · exact (exposed_nesting hinstalls htree s).2
  · obtain ⟨hunswitched, -⟩ := (fulfils_unswitched hscripts host).run (Tree.parse line)
      (Governor.exposedSession shell.policy s)
    exact hdispatch.startsExposed (List.forall_mem_cons.mpr ⟨rfl, hunswitched.events⟩) _

/-- A machine on which every program ends at once with success. -/
def obligingMachine : Machine where
  programs _ := [.started {}]

/-- A shell with a script that dispatches a line. -/
def redispatchingShell : Shell where
  commands := builtinCommands.insert "again" (.script [.execute "inner"])

/-- Scripts that dispatch lines inside of each other, between other programs. -/
theorem execute_start_handler_again :
    let shell : Shell := { redispatchingShell with
      commands := redispatchingShell.commands.insert "twice"
        (.script [.runLine "first", .execute "again && second", .execute "third | again"]) }
    let line := "before && twice && again || after"
    let r := shell.execute line {} { machine := obligingMachine }
    (∀ n, ({} : Host).installFailures n = none) ∧
      StartsInside shell.policy obligingMachine.handler r.events ∧
      r.state.machine.handler = handlerAfter obligingMachine.handler r.events ∧
      (¬ shell.Redispatches →
        StartsExposed shell.policy obligingMachine.handler r.events) := by
  intro shell line r
  exact ⟨fun _ => rfl, execute_start_handler shell {} (fun _ => rfl) line
    { machine := obligingMachine }⟩

/-- A program behind a script that dispatches a line is started guarded. -/
theorem execute_starts_guarded :
    let l := (redispatchingShell.execute "again && behind" {} { machine := obligingMachine }).events
    (∀ n, ({} : Host).installFailures n = none) ∧
      ¬ StartsExposed redispatchingShell.policy obligingMachine.handler l := by
  intro l
  refine ⟨fun _ => rfl, fun hexposed => ?_⟩
  have hstart : l = l.take 13 ++ .spawn 102 ["behind"] .inherited .inherited .inherited none ::
      l.drop 14 := by decide +kernel
  have hguarded : handlerAfter obligingMachine.handler (l.take 13) = .ignore := by decide +kernel
  have hraise := hexposed _ _ _ hstart rfl
  rw [hguarded] at hraise
  exact absurd hraise (by decide)

end Shell

end LineShell
