/-
  LineShell.Proofs.Shell.Interrupted

  What becomes of an interrupt of a wait while a line is dispatched.

  With an observer that never fails, and handlers that can be put in place, an
  interrupted wait ends the dispatch with the interrupt, and nothing is started
  after it, while all that has been started is still waited for.  There is one
  exception: while a pipeline is abandoned because it has failed in another way,
  an interrupt is swallowed, and the line goes on with that failure
  (`execute_heeds`).  A conditional may even go on to its next alternative
  then (`execute_swallows`).
-/

import LineShell.Proofs.Pipeline.Interrupts
import LineShell.Proofs.Shell.Plain
import LineShell.Proofs.Shell.Reaped

namespace LineShell

/-- The wait between the events is one of those of abandoning a pipeline. -/
def Swallowed (setting : Setting) (host : Host) (before : List Event) (pid : Int)
    (after : List Event) : Prop :=
  ∃ f earlier ran left₁ left₂ later,
    before = earlier ++ (ran ++ left₁) ∧ after = left₂ ++ later ∧
      Pipeline.Abandons setting host f ran (left₁ ++ .wait pid none :: left₂)

/-- Every interrupted wait ends the run, unless it is swallowed. -/
def Heeds (setting : Setting) (host : Host) (l : List Event) (failure? : Option Failure) : Prop :=
  ∀ before pid after, l = before ++ .wait pid none :: after →
    ((∃ message, failure? = some (.interrupt message)) ∧ ∀ e ∈ after, e.isStart = false) ∨
      Swallowed setting host before pid after

theorem Swallowed.surround {setting : Setting} {host : Host} {before after : List Event}
    {pid : Int} (h : Swallowed setting host before pid after) (l₁ l₂ : List Event) :
    Swallowed setting host (l₁ ++ before) pid (after ++ l₂) := by
  obtain ⟨f, earlier, ran, left₁, left₂, later, rfl, rfl, habandons⟩ := h
  exact ⟨f, l₁ ++ earlier, ran, left₁, left₂, later ++ l₂, by simp, by simp, habandons⟩

namespace Heeds

variable {setting : Setting} {host : Host} {l l₁ l₂ : List Event} {failure? : Option Failure}

theorem of_ends (h : EndsOnInterrupt l failure?) : Heeds setting host l failure? :=
  fun before pid after hl => .inl (h before pid after hl)

theorem of_uninterrupted (h : Uninterrupted l) : Heeds setting host l failure? :=
  of_ends (.of_uninterrupted h failure?)

/-- What goes on after a run ends it with what came out of it, and starts nothing itself. -/
theorem surround (h : Heeds setting host l failure?) (h₁ : Uninterrupted l₁)
    (h₂ : Uninterrupted l₂) (hstart : ∀ e ∈ l₂, e.isStart = false) :
    Heeds setting host (l₁ ++ (l ++ l₂)) failure? := by
  intro before pid after hl
  -- The wait is one of the run in the middle, for there is none before and none behind.
  rcases eq_append_cons_of_append hl with ⟨rest, rfl, -⟩ | ⟨rest, rfl, hrest⟩
  · exact absurd rfl (h₁ (.wait pid none) (by simp) pid)
  · rcases eq_append_cons_of_append hrest with ⟨rest', hbody, rfl⟩ | ⟨rest', -, rfl⟩
    · rcases h rest pid rest' hbody with ⟨hmessage, hafter⟩ | hswallowed
      · exact .inl ⟨hmessage, List.forall_mem_append.mpr ⟨hafter, hstart⟩⟩
      · exact .inr (hswallowed.surround l₁ l₂)
    · exact absurd rfl (h₂ (.wait pid none) (by simp) pid)

theorem append (h₁ : Heeds setting host l₁ none) (h₂ : Heeds setting host l₂ failure?) :
    Heeds setting host (l₁ ++ l₂) failure? := by
  intro before pid after hl
  rcases eq_append_cons_of_append hl with ⟨rest, hl₁, rfl⟩ | ⟨rest, rfl, hl₂⟩
  · -- No interrupt has come out of the first part, so this one was swallowed in it.
    rcases h₁ before pid rest hl₁ with ⟨⟨message, hmessage⟩, -⟩ | hswallowed
    · cases hmessage
    · exact .inr (hswallowed.surround [] l₂)
  · rcases h₂ rest pid after hl₂ with hends | hswallowed
    · exact .inl hends
    · refine .inr ?_
      have hlater := hswallowed.surround l₁ []
      rwa [List.append_nil] at hlater

/-- A failure of the shell is no interrupt, so that none is lost when it is caught. -/
theorem caught {f : Failure} (h : Heeds setting host l (some f)) (hf : f.isShell = true) :
    Heeds setting host l none := by
  intro before pid after hl
  rcases h before pid after hl with ⟨⟨message, hmessage⟩, -⟩ | hswallowed
  · cases hmessage
    cases hf
  · exact .inr hswallowed

end Heeds

theorem uninterrupted_of_calm {m m' : Machine} {l : List Event} (h : m.Calm l m') :
    Uninterrupted l := by
  rintro e he pid rfl
  have hcalm := h.1 _ he
  cases hcalm

namespace Shell

variable {shell : Shell} {host : Host}

/-! ## What a line is made of -/

theorem pipeline_heeds {setting : Setting} (hsilent : setting.Silent)
    (stages : List (List String)) (m : Machine) :
    Heeds setting host (Pipeline.run setting stages host m).events
      (Pipeline.run setting stages host m).failure? := by
  rcases Pipeline.run_heeding host hsilent stages m with
    hends | ⟨f, ran, left, -, hevents, hran, habandons⟩
  · exact .of_ends hends
  -- The block of the pipeline has been through no interrupt, so the wait is one of leaving it.
  · rw [hevents]
    intro before pid after hl
    rcases eq_append_cons_of_append hl with ⟨rest, rfl, -⟩ | ⟨left₁, rfl, rfl⟩
    · exact absurd rfl (hran (.wait pid none) (by simp) pid)
    · exact .inr ⟨f, [], ran, left₁, after, [], rfl, by simp, habandons⟩

theorem redirect_heeds {setting : Setting} (hsilent : setting.Silent) (source : String)
    (mode : OpenMode) (target : String) (m : Machine) :
    Heeds setting host (Redirect.run setting source mode target host m).events
      (Redirect.run setting source mode target host m).failure? := by
  have hspec := Redirect.run_spec setting source mode target host m
  generalize Redirect.run setting source mode target host m = r at hspec
  cases hspec with
  | unopened f hl =>
    rcases hl with rfl | rfl
    · exact .of_uninterrupted .nil
    · exact .of_uninterrupted (.single nofun)
  | blank => exact .of_uninterrupted (by simp [Uninterrupted])
  | @program invocation message _ _ hr =>
    subst hr
    have hrun := Group.foreground_heeding host hsilent
      (Redirect.attach mode target invocation) (Redirect.opened target m)
    have hopened : Uninterrupted [.openFile target mode true, .log .redirect message] := by
      simp [Uninterrupted]
    exact (Heeds.of_ends hrun).surround hopened (.single nofun) (by simp [Event.isStart])

/-- The calls for a handler around a line, both of which succeed. -/
theorem exposed_heeds (hinstall : ∀ n, host.installFailures n = none)
    (policy : Governor.Policy) {setting : Setting} {body : Action Session Unit}
    (hbody : body.Meets host fun _ l failure? _ => Heeds setting host l failure?) :
    (Governor.exposed policy body).Meets host fun _ l failure? _ =>
      Heeds setting host l failure? := by
  intro s
  have hran := hbody (Governor.exposedSession policy s)
  obtain ⟨message, message', hrun⟩ := Governor.exposed_apply_of_installs hinstall policy body s
  rw [hrun]
  have hbefore : Uninterrupted [.signal policy.signum policy.exposedHandler true,
      .log .signals message] := by simp [Uninterrupted]
  have hafter : Uninterrupted [.signal policy.signum Signal.Handler.ignore true,
      .log .signals message'] := by simp [Uninterrupted]
  exact hran.surround hbefore hafter (by simp [Event.isStart])

theorem fulfils_heeds (hsilent : shell.setting.Silent)
    (hinstall : ∀ n, host.installFailures n = none) :
    shell.Fulfils host fun _ l failure? _ => Heeds shell.setting host l failure? where
  nil _ := .of_uninterrupted .nil
  append := .append
  caught hf h := h.caught hf
  raised _ _ _ := .of_uninterrupted .nil
  log _ _ _ := .of_uninterrupted (.single nofun)
  failed _ _ := .of_uninterrupted .nil
  call _ _ _ _ := .of_uninterrupted (.single nofun)
  writeLine text s :=
    .of_uninterrupted (uninterrupted_of_calm (writeLine_calm shell.setting text host s.machine))
  print text s :=
    .of_uninterrupted (uninterrupted_of_calm (Machine.write_calm _ text host s.machine))
  builtin command args text s := by
    by_cases hps : command = .ps
    · rw [hps]
      exact .of_ends (Group.foreground_heeding host hsilent _ s.machine)
    · exact .of_uninterrupted
        (uninterrupted_of_calm (builtin_calm shell.setting args text hps host s.machine))
  foreground _ _ s := .of_ends (Group.foreground_heeding host hsilent _ s.machine)
  redirect source mode target s := redirect_heeds hsilent source mode target s.machine
  pipeline stages s := pipeline_heeds hsilent stages s.machine
  exposed _ _ hbody := exposed_heeds hinstall shell.policy hbody

/-! ## Lines -/

/-- An interrupted wait ends the dispatch of a line with the interrupt, and nothing is started
    after it, unless the wait is one of those of abandoning a pipeline.  Either way everything
    that has been started is waited for in the end. -/
theorem execute_heeds (shell : Shell)
    (hsilent : ∀ hook, shell.setting.hook = some hook → ∀ n event, hook n event = none)
    (host : Host) (hinstall : ∀ n, host.installFailures n = none) (line : String) (s : Session) :
    Heeds shell.setting host (shell.execute line host s).events
        (shell.execute line host s).failure? ∧
      (DistinctInGroups (shell.execute line host s).events → ∀ pid,
        (processes.released (shell.execute line host s).events).count pid
          = (processes.acquired (shell.execute line host s).events).count pid) := by
  have hquiet : shell.setting.QuietOnEnds := Setting.Silent.quietOnEnds hsilent
  constructor
  · have hrun := exposed_heeds hinstall shell.policy
      ((fulfils_heeds hsilent hinstall).run (Tree.parse line)) s
    exact .append (.of_uninterrupted (.single nofun)) hrun
  · intro hdistinct pid
    have hbalanced : Balanced (shell.execute line host s).events :=
      (obeys_balanced hquiet).execute line host s
    exact Custody.count_released (hbalanced hdistinct) pid

/-- A machine with a program that waits are interrupted for, one that ends at once, and no
    others. -/
def interruptingMachine : Machine where
  programs program :=
    if program = "slow" then [.started { interrupts := 1 }]
    else if program = "next" then [.started {}]
    else []

/-- A pipeline that is interrupted while it is waited for. -/
theorem execute_heeds_slow :
    (∀ hook, ({} : Setting).hook = some hook → ∀ n event, hook n event = none) ∧
      (∀ n, ({} : Host).installFailures n = none) ∧
      let r := Shell.execute {} "slow | next || next" {} { machine := interruptingMachine }
      Heeds {} {} r.events r.failure? ∧ (DistinctInGroups r.events → ∀ pid,
        (processes.released r.events).count pid = (processes.acquired r.events).count pid) :=
  ⟨fun _ => nofun, fun _ => rfl, execute_heeds {} (fun _ => nofun) {} (fun _ => rfl) _ _⟩

/-- The second stage of a pipeline does not exist, and the wait for the first is interrupted
    while the pipeline is abandoned: the next alternative is run all the same. -/
theorem execute_swallows :
    let r := Shell.execute {} "slow | missing || next" {} { machine := interruptingMachine }
    r.failure? = none ∧ ¬ EndsOnInterrupt r.events r.failure? ∧
      (r.events.dropWhile (· ≠ .wait 101 none)).any Event.isStart = true := by
  intro r
  have hnone : r.failure? = none := by decide +kernel
  have hmem : Event.wait 101 none ∈ r.events := by decide +kernel
  refine ⟨hnone, fun hends => ?_, by decide +kernel⟩
  exact absurd rfl (hends.uninterrupted (by simp [hnone]) _ hmem 101)

end Shell

end LineShell
