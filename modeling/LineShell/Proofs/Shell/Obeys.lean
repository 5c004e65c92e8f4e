/-
  LineShell.Proofs.Shell.Obeys

  Relations that everything a shell does keeps.

  A shell does what it does through a few actions of the machine: it runs a
  program, a redirected command, a pipeline or a built-in command, writes, puts a
  handler in place for a signal, and reports.  A path relation that these keep is
  kept by every tree, by every script, however deep scripts dispatch lines inside
  of each other, by every dispatched line, and by steps of any kind in any order.
-/

import LineShell.Proofs.Shell.Fulfils
import LineShell.Shell.Steps

namespace LineShell

/-- A relation between the machines of two sessions. -/
def Session.Lift (R : Machine → List Event → Machine → Prop) (s : Session) (l : List Event)
    (s' : Session) : Prop :=
  R s.machine l s'.machine

namespace Shell

variable {shell : Shell} {R : Machine → List Event → Machine → Prop} {α : Type}

/-- Kept by each action of the machine that the shell uses. -/
structure Obeys (shell : Shell) (R : Machine → List Event → Machine → Prop) : Prop
    extends IsPath R where
  log : ∀ m source message, R m [.log source message] m
  call : ∀ m name args text, R m [.call name args text] m
  install : ∀ signum handler, (Machine.install signum handler).Keeps R
  print : ∀ text, (shell.setting.print text).Keeps R
  flush : (Machine.flush shell.setting.output).Keeps R
  builtin : ∀ (command : Builtin) args text, (command.run shell.setting args text).Keeps R
  foreground : ∀ program args, (Group.foreground shell.setting { program, args }).Keeps R
  redirect : ∀ command mode target, (Redirect.run shell.setting command mode target).Keeps R
  pipeline : ∀ stages, (Pipeline.run shell.setting stages).Keeps R

/-- The events of all records. -/
def trace (records : List (Result Session (Option (List String)))) : List Event :=
  records.flatMap Result.events

/-- The session that a sequence of steps leads to, given what it starts from. -/
def sessionAfter (s : Session) (records : List (Result Session (Option (List String)))) :
    Session :=
  records.foldl (fun _ r => r.state) s

theorem inSession_keeps {x : Action Machine α} (hx : x.Keeps R) :
    x.inSession.Keeps (Session.Lift R) := hx.zoom fun _ _ => rfl

namespace Obeys

theorem and {S : Machine → List Event → Machine → Prop} (hR : shell.Obeys R)
    (hS : shell.Obeys S) : shell.Obeys fun m l m' => R m l m' ∧ S m l m' where
  toIsPath := hR.toIsPath.and hS.toIsPath
  log m source message := ⟨hR.log m source message, hS.log m source message⟩
  call m name args text := ⟨hR.call m name args text, hS.call m name args text⟩
  install signum handler := (hR.install signum handler).and (hS.install signum handler)
  print text := (hR.print text).and (hS.print text)
  flush := hR.flush.and hS.flush
  builtin command args text := (hR.builtin command args text).and (hS.builtin command args text)
  foreground program args := (hR.foreground program args).and (hS.foreground program args)
  redirect source mode target :=
    (hR.redirect source mode target).and (hS.redirect source mode target)
  pipeline stages := (hR.pipeline stages).and (hS.pipeline stages)

variable (h : shell.Obeys R)

include h

theorem isPath_lift : IsPath (Session.Lift R) := h.toIsPath.comap Session.machine

theorem log_keeps (source : LogSource) (message : String) :
    (Action.log source message : Action Session Unit).Keeps (Session.Lift R) :=
  fun _ s => h.log s.machine source message

theorem writeLine (text : String) : (shell.setting.writeLine text).Keeps R :=
  .bind h.toIsPath (h.print (text ++ "\n")) fun _ => h.flush

/-! ## The governor -/

theorem modify_keeps (f : Governor → Governor) :
    (Governor.modify f).Keeps (Session.Lift R) := fun _ s => h.nil s.machine

theorem guard (policy : Governor.Policy) : (Governor.guard policy).Keeps (Session.Lift R) :=
  .bind h.isPath_lift (inSession_keeps (h.install _ _)) fun _ =>
    .bind h.isPath_lift (h.modify_keeps _) fun _ => h.log_keeps _ _

theorem expose (policy : Governor.Policy) : (Governor.expose policy).Keeps (Session.Lift R) :=
  .bind h.isPath_lift (inSession_keeps (h.install _ _)) fun _ =>
    .bind h.isPath_lift (h.modify_keeps _) fun _ => h.log_keeps _ _

theorem exposed (policy : Governor.Policy) (host : Host) {body : Action Session α}
    (hbody : body.Meets host fun s l _ s' => Session.Lift R s l s') :
    (Governor.exposed policy body).Meets host fun s l _ s' => Session.Lift R s l s' :=
  .bind (.of_isPath h.isPath_lift) ((h.expose policy).meets host) fun _ =>
    hbody.ensuring fun _ _ _ s₂ hrun => h.append hrun (h.guard policy host s₂)

theorem restore (policy : Governor.Policy) :
    (Governor.restore policy).Keeps (Session.Lift R) := by
  refine .bind h.isPath_lift (.get h.isPath_lift) fun s => ?_
  split
  · exact .pure h.isPath_lift ()
  · exact .bind h.isPath_lift (inSession_keeps (h.install _ _)) fun _ =>
      .bind h.isPath_lift (h.modify_keeps _) fun _ => h.log_keeps _ _

/-! ## Trees and lines -/

/-- The contract that asks for the relation whatever the outcome is. -/
theorem fulfils (host : Host) : shell.Fulfils host fun s l _ s' => Session.Lift R s l s' where
  toSequential := .of_isPath h.isPath_lift
  caught _ hrun := hrun
  raised s _ _ := h.nil s.machine
  log s source message := h.log s.machine source message
  failed s _ := h.nil s.machine
  call s name args text := h.call s.machine name args text
  writeLine text := (inSession_keeps (h.writeLine text)).meets host
  print text := (inSession_keeps (h.print text)).meets host
  builtin command args text := (inSession_keeps (h.builtin command args text)).meets host
  foreground program args := (inSession_keeps (h.foreground program args)).meets host
  redirect source mode target := (inSession_keeps (h.redirect source mode target)).meets host
  pipeline stages := (inSession_keeps (h.pipeline stages)).meets host
  exposed _ _ hbody := h.exposed shell.policy host hbody

/-- Everything that dispatching a line does keeps the relation. -/
theorem execute (line : String) : (Shell.execute shell line).Keeps (Session.Lift R) :=
  .bind h.isPath_lift (h.log_keeps _ _) fun _ host =>
    h.exposed shell.policy host ((h.fulfils host).run (Tree.parse line))

/-! ## Steps -/

theorem step (step : Step) : (step.action shell).Keeps (Session.Lift R) := by
  have hR := h.isPath_lift
  have hdone : ∀ {x : Action Session Unit}, x.Keeps (Session.Lift R) →
      (do x; pure none : Action Session (Option (List String))).Keeps (Session.Lift R) :=
    fun hx => .bind hR hx fun _ => .pure hR none
  cases step with
  | execute line => exact hdone (h.execute line)
  | run tree => exact hdone fun host => (h.fulfils host).run tree
  | guard => exact hdone (h.guard shell.policy)
  | expose => exact hdone (h.expose shell.policy)
  | restore => exact hdone (h.restore shell.policy)
  | writeLine text => exact hdone (inSession_keeps (h.writeLine text))
  | print text => exact hdone (inSession_keeps (h.print text))
  | register name actions replace =>
    simp only [Step.action]
    cases shell.register name (.script actions) replace with
    | ok shell' => exact .pure hR _
    | error f => exact .fail hR f

/-- A registration changes the table of the shell, and the relation has nothing to do with it. -/
theorem next (step : Step) : (step.next shell).Obeys R := by
  cases step with
  | register name actions replace =>
    simp only [Step.next, Shell.register]
    cases shell.commands.register name (.script actions) replace with
    | ok commands => exact { h with }
    | error f => exact h
  | _ => exact h

/-- The relation leads from the first session to the one after any number of the steps. -/
theorem runSteps (host : Host) (s : Session) (steps : List Step) (n : Nat) :
    let records := (Shell.runSteps host shell s steps).take n
    Session.Lift R s (Shell.trace records) (Shell.sessionAfter s records) := by
  induction steps generalizing shell s n with
  | nil =>
    rw [Shell.runSteps, List.take_nil]
    exact h.nil s.machine
  | cons first rest ih =>
    cases n with
    | zero => exact h.nil s.machine
    | succ n =>
      have hfirst := h.step first host s
      exact h.append hfirst (ih (h.next first) _ n)

end Obeys

end Shell

end LineShell
