/-
  LineShell.Proofs.Machine.Calm

  What the calls come to that involve no process, pipe, file or handler.

  Changing the directory, sending a signal and writing come to a value or a
  failure, and to nothing on the machine but another working directory and other
  texts that wait for a flush: such runs are calm.
-/

import LineShell.Proofs.Action.Keeps
import LineShell.Setting

namespace LineShell

/-- Whether the event is about no process, pipe, file or handler. -/
def Event.isCalm : Event → Bool
  | .chdir .. | .kill .. | .write .. | .out .. | .log .. | .call .. => true
  | _ => false

namespace Machine

/-- Nothing has changed but the working directory and the texts that wait for a flush. -/
structure Undisturbed (m m' : Machine) : Prop where
  programs : m'.programs = m.programs
  nextPid : m'.nextPid = m.nextPid
  pipeCalls : m'.pipeCalls = m.pipeCalls
  nextDescriptor : m'.nextDescriptor = m.nextDescriptor
  files : m'.files = m.files
  handler : m'.handler = m.handler
  installCalls : m'.installCalls = m.installCalls
  hookCalls : m'.hookCalls = m.hookCalls

theorem Undisturbed.refl (m : Machine) : m.Undisturbed m := ⟨rfl, rfl, rfl, rfl, rfl, rfl, rfl, rfl⟩

theorem Undisturbed.trans {m₁ m₂ m₃ : Machine} (h₁ : m₁.Undisturbed m₂)
    (h₂ : m₂.Undisturbed m₃) : m₁.Undisturbed m₃ where
  programs := h₂.programs.trans h₁.programs
  nextPid := h₂.nextPid.trans h₁.nextPid
  pipeCalls := h₂.pipeCalls.trans h₁.pipeCalls
  nextDescriptor := h₂.nextDescriptor.trans h₁.nextDescriptor
  files := h₂.files.trans h₁.files
  handler := h₂.handler.trans h₁.handler
  installCalls := h₂.installCalls.trans h₁.installCalls
  hookCalls := h₂.hookCalls.trans h₁.hookCalls

/-- Calm events on an undisturbed machine. -/
def Calm (m : Machine) (l : List Event) (m' : Machine) : Prop :=
  (∀ e ∈ l, e.isCalm = true) ∧ m.Undisturbed m'

theorem Calm.isPath : IsPath Calm :=
  (IsPath.forall_mem _).and ⟨Undisturbed.refl, Undisturbed.trans⟩

theorem Calm.single {e : Event} {m m' : Machine} (he : e.isCalm = true)
    (hm : m.Undisturbed m') : m.Calm [e] m' :=
  ⟨List.forall_mem_singleton.mpr he, hm⟩

theorem undisturbed_setBuffer (m : Machine) (stream : OutputStream) (text : String) :
    m.Undisturbed (m.setBuffer stream text) := by
  cases stream <;> exact ⟨rfl, rfl, rfl, rfl, rfl, rfl, rfl, rfl⟩

variable (host : Host) (m : Machine)

/-! ## The calls -/

/-- A path with a null character is refused; for any other the host says where it leads. -/
theorem changeDirectory_apply (path : String) :
    changeDirectory path host m =
      if hasNull path then ⟨.error .embeddedNull, m, []⟩
      else match (host.directories path).getD (.error .noSuchFile) with
        | .error f => ⟨.error f, m, [.chdir path false]⟩
        | .ok cwd => ⟨.ok (), { m with cwd := cwd }, [.chdir path true]⟩ := by
  by_cases hnull : hasNull path = true
  · simp [changeDirectory, hnull]
  · cases htarget : (host.directories path).getD (.error .noSuchFile) <;>
      simp [changeDirectory, hnull, htarget]

theorem workingDirectory_apply :
    workingDirectory host m =
      ⟨match host.cwdFailure with
        | some f => .error f
        | none => .ok m.cwd, m, []⟩ := by
  cases h : host.cwdFailure <;> simp [workingDirectory, h]

/-- A number that is too large is refused; for any other the host says who gets the signal. -/
theorem kill_apply (pid signum : Int) :
    kill pid signum host m =
      match pidOverflow? pid with
      | some f => ⟨.error f, m, []⟩
      | none =>
        match (host.targets pid).getD (some .noSuchProcess) with
        | some f => ⟨.error f, m, [.kill pid signum false]⟩
        | none => ⟨.ok (), m, [.kill pid signum true]⟩ := by
  cases hoverflow : pidOverflow? pid with
  | some f => simp [kill, hoverflow]
  | none =>
    cases htarget : (host.targets pid).getD (some .noSuchProcess) <;>
      simp [kill, hoverflow, htarget]

theorem write_apply (stream : OutputStream) (text : String) :
    write stream text host m =
      ⟨.ok (), m.setBuffer stream (m.buffer stream ++ text), [.write stream text]⟩ := rfl

/-- A flush does not fail. -/
theorem flush_apply (stream : OutputStream) :
    flush stream host m =
      if (m.buffer stream).isEmpty then ⟨.ok (), m, []⟩
      else ⟨.ok (), m.setBuffer stream "", [.out stream (m.buffer stream)]⟩ := by
  simp only [flush, Action.bind_apply, Action.get_apply, Result.andThen_ok]
  split <;> rfl

/-! ## They are calm -/

theorem changeDirectory_calm (path : String) : (changeDirectory path).Keeps Calm := by
  intro host m
  rw [changeDirectory_apply]
  split
  · exact Calm.isPath.nil m
  · split
    · exact .single rfl (.refl m)
    · exact .single rfl ⟨rfl, rfl, rfl, rfl, rfl, rfl, rfl, rfl⟩

theorem workingDirectory_calm : workingDirectory.Keeps Calm := by
  intro host m
  rw [workingDirectory_apply]
  exact Calm.isPath.nil m

theorem kill_calm (pid signum : Int) : (kill pid signum).Keeps Calm := by
  intro host m
  rw [kill_apply]
  split
  · exact Calm.isPath.nil m
  · split <;> exact .single rfl (.refl m)

theorem write_calm (stream : OutputStream) (text : String) : (write stream text).Keeps Calm := by
  intro host m
  rw [write_apply]
  exact .single rfl (undisturbed_setBuffer m stream _)

theorem flush_calm (stream : OutputStream) : (flush stream).Keeps Calm := by
  intro host m
  rw [flush_apply]
  split
  · exact Calm.isPath.nil m
  · exact .single rfl (undisturbed_setBuffer m stream "")

end Machine

/-! ## Printing a line -/

/-- The events of a line that is printed behind a text that waits. -/
def printedLine (stream : OutputStream) (pending text : String) : List Event :=
  [.write stream (text ++ "\n"), .out stream (pending ++ (text ++ "\n"))]

/-- A line is written, and handed on with all that waits before it. -/
theorem Setting.writeLine_apply (setting : Setting) (text : String) (host : Host) (m : Machine) :
    setting.writeLine text host m =
      ⟨.ok (), m.setBuffer setting.output "",
        printedLine setting.output (m.buffer setting.output) text⟩ := by
  rw [writeLine, Action.bind_apply, print, Machine.write_apply, Result.andThen_ok,
    Machine.flush_apply]
  -- The line feed waits, so there is something to hand on.
  cases setting.output <;> rw [if_neg (by simp [Machine.buffer, Machine.setBuffer])] <;> rfl

end LineShell
