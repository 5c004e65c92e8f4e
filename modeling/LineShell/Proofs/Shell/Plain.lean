/-
  LineShell.Proofs.Shell.Plain

  What a shell does without processes, pipes and files.

  Writing, changing the directory, sending signals, putting handlers in place and
  reporting are plain: they cause no event about a process, a pipe or a file and
  hand out no descriptor.  A path relation that holds of all that is plain is kept
  by a shell as soon as programs, redirected commands and pipelines keep it.
-/

import LineShell.Proofs.Governor.Calls
import LineShell.Proofs.Machine.Calm
import LineShell.Proofs.Shell.Obeys

namespace LineShell

/-- Whether the event is about no process, pipe or file. -/
def Event.isPlain : Event → Bool
  | .chdir .. | .kill .. | .signal .. | .write .. | .out .. | .log .. | .call .. => true
  | _ => false

/-- Plain events, and no descriptor handed out. -/
def Machine.Plain (m : Machine) (l : List Event) (m' : Machine) : Prop :=
  (∀ e ∈ l, e.isPlain = true) ∧ m'.nextDescriptor = m.nextDescriptor

namespace Machine.Plain

/-- What is calm is plain. -/
theorem of_calm {m m' : Machine} {l : List Event} (h : m.Calm l m') : m.Plain l m' := by
  obtain ⟨hcalm, hm⟩ := h
  refine ⟨fun e he => ?_, hm.nextDescriptor⟩
  have hcalm := hcalm e he
  cases e <;> first | rfl | cases hcalm

/-- A call for a handler is plain without being calm. -/
theorem install (signum : Int) (handler : Signal.Handler) :
    (Machine.install signum handler).Keeps Machine.Plain := by
  intro host m
  have hplain : ∀ ok, ∀ e ∈ [Event.signal signum handler ok], e.isPlain = true :=
    fun ok => List.forall_mem_singleton.mpr rfl
  cases h : host.installFailures m.installCalls with
  | some f =>
    rw [install_apply_of_some h]
    exact ⟨hplain false, rfl⟩
  | none =>
    rw [install_apply_of_none h]
    exact ⟨hplain true, rfl⟩

end Machine.Plain

namespace Shell

variable {shell : Shell} {R : Machine → List Event → Machine → Prop}

theorem writeLine_calm (setting : Setting) (text : String) :
    (setting.writeLine text).Keeps Machine.Calm :=
  .bind Machine.Calm.isPath (Machine.write_calm _ _) fun _ => Machine.flush_calm _

/-- A relation that the calls on the machine keep is kept by the built-in commands. -/
theorem builtin_keeps_of_calls (hR : IsPath R) {setting : Setting}
    (hlog : ∀ m source message, R m [.log source message] m)
    (hcwd : Machine.workingDirectory.Keeps R)
    (hcd : ∀ path, (Machine.changeDirectory path).Keeps R)
    (hwrite : ∀ text, (setting.writeLine text).Keeps R) (command : Builtin)
    (hkill : command = .kill → ∀ pid, (Machine.kill pid Signal.terminate).Keeps R)
    (hps : command = .ps → ∀ args, (Group.foreground setting { program := "ps", args }).Keeps R)
    (args : List String) (text : String) : (command.run setting args text).Keeps R := by
  cases command with
  | pwd => exact .bind hR hcwd hwrite
  | cd =>
    refine .bind hR (.host hR) fun host => .bind hR (.ofExcept hR _) fun target => ?_
    exact (hcd target).mapFailure _
  | kill =>
    refine .bind hR (.ofExcept hR _) fun pid => .bind hR ?_ fun _ _ m => hlog m _ _
    exact (hkill rfl pid).mapFailure _
  | ps => exact hps rfl _
  | echo => exact hwrite _

/-- All built-in commands but one do without processes. -/
theorem builtin_calm (setting : Setting) (args : List String) (text : String)
    {command : Builtin} (h : command ≠ .ps) :
    (command.run setting args text).Keeps Machine.Calm :=
  builtin_keeps_of_calls Machine.Calm.isPath (fun m _ _ => .single rfl (.refl m))
    Machine.workingDirectory_calm Machine.changeDirectory_calm
    (writeLine_calm setting) command (fun _ pid => Machine.kill_calm pid _)
    (fun hps => absurd hps h) args text

/-- A relation that holds of all that is calm is kept by the built-in commands if the programs
    in the foreground keep it. -/
theorem builtin_keeps (hcalm : ∀ m l m', m.Calm l m' → R m l m')
    {setting : Setting}
    (hforeground : ∀ program args, (Group.foreground setting { program, args }).Keeps R)
    (command : Builtin) (args : List String) (text : String) :
    (command.run setting args text).Keeps R := by
  by_cases h : command = .ps
  -- Listing processes is the one command that is a program of the system.
  · rw [h]
    exact hforeground "ps" _
  · exact (builtin_calm setting args text h).mono hcalm

/-- A relation that holds of all that is plain is kept by a shell if programs, redirected
    commands and pipelines keep it. -/
theorem Obeys.of_plain (hR : IsPath R) (hplain : ∀ m l m', m.Plain l m' → R m l m')
    (hforeground : ∀ program args, (Group.foreground shell.setting { program, args }).Keeps R)
    (hredirect : ∀ source mode target,
      (Redirect.run shell.setting source mode target).Keeps R)
    (hpipeline : ∀ stages, (Pipeline.run shell.setting stages).Keeps R) : shell.Obeys R where
  toIsPath := hR
  log m _ _ := hplain _ _ _ (.of_calm (.single rfl (.refl m)))
  call m _ _ _ := hplain _ _ _ (.of_calm (.single rfl (.refl m)))
  install signum handler := (Machine.Plain.install signum handler).mono hplain
  print text := (Machine.write_calm _ text).mono fun _ _ _ h => hplain _ _ _ (.of_calm h)
  flush := (Machine.flush_calm _).mono fun _ _ _ h => hplain _ _ _ (.of_calm h)
  builtin := builtin_keeps (fun _ _ _ h => hplain _ _ _ (.of_calm h)) hforeground
  foreground := hforeground
  redirect := hredirect
  pipeline := hpipeline

end Shell

end LineShell
