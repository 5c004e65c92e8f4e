/-
  LineShell.Proofs.Shell.Output

  What a shell writes comes out before what its processes write.

  A shell that writes to the standard output shares it with its processes, so what it
  has written must be handed on before one of them is started.  Every start begins
  with handing it on, however the start ends (`start_eq_after_flush`), and nothing
  but a write adds to what waits.  So commands, handlers and built-in commands may write
  in any order, flushed or not: nothing is lost, nothing overtakes, and nothing waits
  when a start is attempted (`runSteps_outputFirst`).
-/

import LineShell.Proofs.Event.Output
import LineShell.Proofs.Redirect.Inversion
import LineShell.Proofs.Shell.Plain

namespace LineShell

/-- The events deliver what the shell writes, from the text that waits on the first machine to
    the text that waits on the second. -/
def Machine.Delivers (m : Machine) (l : List Event) (m' : Machine) : Prop :=
  LineShell.Delivers m.standardBuffer l m'.standardBuffer

namespace Machine.Delivers

theorem isPath : IsPath Machine.Delivers where
  nil m := .nil m.standardBuffer
  append h₁ h₂ := LineShell.Delivers.append h₁ h₂

/-- Events that move no text and start nothing, while the text that waits stays the same. -/
theorem of_still {m m' : Machine} {l : List Event}
    (hl : ∀ e ∈ l, e.isOutput = false ∧ e.isLaunch = false)
    (hm : m'.standardBuffer = m.standardBuffer) : m.Delivers l m' := by
  unfold Machine.Delivers
  rw [hm]
  refine .of_forall (fun e he => (hl e he).1) fun e he hlaunch => ?_
  rw [(hl e he).2] at hlaunch
  cases hlaunch

theorem single {m m' : Machine} {e : Event} (he : e.isOutput = false ∧ e.isLaunch = false)
    (hm : m'.standardBuffer = m.standardBuffer) : m.Delivers [e] m' :=
  of_still (List.forall_mem_singleton.mpr he) hm

/-- After a flush nothing waits. -/
theorem flushed (m : Machine) : m.Delivers m.flushed { m with standardBuffer := "" } := by
  unfold Machine.Delivers Machine.flushed
  split
  · next hempty =>
    have htext : m.standardBuffer = "" := String.isEmpty_iff.mp hempty
    rw [htext]
    exact .nil ""
  · exact .out (.nil "")

/-! ## Calls on the machine -/

theorem write (text : String) : (Machine.write .standard text).Keeps Machine.Delivers :=
  fun _ m => LineShell.Delivers.write (.nil (m.standardBuffer ++ text))

theorem flush : (Machine.flush .standard).Keeps Machine.Delivers := by
  intro host m
  rw [flush_standard_apply]
  exact flushed m

theorem install (signum : Int) (handler : Signal.Handler) :
    (Machine.install signum handler).Keeps Machine.Delivers := by
  intro host m
  cases h : host.installFailures m.installCalls with
  | some f =>
    rw [install_apply_of_some h]
    exact .single ⟨rfl, rfl⟩ rfl
  | none =>
    rw [install_apply_of_none h]
    exact .single ⟨rfl, rfl⟩ rfl

theorem workingDirectory : Machine.workingDirectory.Keeps Machine.Delivers := by
  intro host m
  rw [workingDirectory_apply]
  exact isPath.nil m

theorem changeDirectory (path : String) : (Machine.changeDirectory path).Keeps Machine.Delivers := by
  intro host m
  rw [changeDirectory_apply]
  split
  · exact isPath.nil m
  · split <;> exact .single ⟨rfl, rfl⟩ rfl

theorem kill (pid signum : Int) : (Machine.kill pid signum).Keeps Machine.Delivers := by
  intro host m
  rw [kill_apply]
  split
  · exact isPath.nil m
  · split <;> exact .single ⟨rfl, rfl⟩ rfl

end Machine.Delivers

/-! ## Starting and tending -/

theorem Machine.standardBuffer_takeBehaviour (m : Machine) (program : String) :
    (m.takeBehaviour program).2.standardBuffer = m.standardBuffer := by
  unfold takeBehaviour
  split <;> rfl

theorem Process.standardBuffer_launch (invocation : Invocation)
    (environment : Option Environment) (host : Host) (m : Machine) :
    (launch invocation environment host m).state.standardBuffer = m.standardBuffer := by
  by_cases hnull : invocation.argv.any Machine.hasNull = true
  · rw [launch_of_null hnull]
  · have hbuffer := m.standardBuffer_takeBehaviour invocation.program
    rw [launch_apply (Bool.eq_false_iff.mpr hnull)]
    generalize m.takeBehaviour invocation.program = taken at hbuffer
    obtain ⟨behaviour, m'⟩ := taken
    cases behaviour <;> exact hbuffer

namespace Group

/-- Every start is attempted with nothing waiting, what has been written having been handed on
    just before, whether it comes to a process, fails, or is refused for its arguments. -/
theorem start_eq_after_flush (setting : Setting) (invocation : Invocation) (host : Host)
    (b : Block) :
    start setting invocation host b =
      (start setting invocation host
        { b with machine := { b.machine with standardBuffer := "" } }).after b.machine.flushed := by
  have hnone : ({ b.machine with standardBuffer := "" } : Machine).flushed = [] := rfl
  rw [start_apply, start_apply, hnone, Result.after_nil]
  rfl

/-- All that is left of a start that is refused for its arguments is that what has been written is
    handed on. -/
theorem start_of_null (setting : Setting) {invocation : Invocation}
    (hnull : invocation.argv.any Machine.hasNull = true) (host : Host) (b : Block) :
    start setting invocation host b =
      ⟨.error .embeddedNull, { b with machine := { b.machine with standardBuffer := "" } },
        b.machine.flushed⟩ := by
  rw [start_apply, Process.launch_of_null hnull, joined, Result.after_mk, List.append_nil]
  rfl

/-- Behind a start nothing waits. -/
theorem standardBuffer_start (setting : Setting) (invocation : Invocation) (host : Host)
    (b : Block) : (start setting invocation host b).state.machine.standardBuffer = "" := by
  have hlaunch := Process.standardBuffer_launch invocation setting.environment host
    { b.machine with standardBuffer := "" }
  rw [start_apply]
  generalize Process.launch invocation setting.environment host
    { b.machine with standardBuffer := "" } = launched at hlaunch
  obtain ⟨f | p, m, l⟩ := launched <;> exact hlaunch

/-- Waiting for a member leaves alone what waits to be handed on. -/
theorem standardBuffer_reap (setting : Setting) (i : Nat) (host : Host) (b : Block) :
    (reap setting i host b).state.machine.standardBuffer = b.machine.standardBuffer := by
  cases hp : b.member? i with
  | none => simp [reap, hp]
  | some p =>
    by_cases hreaped : p.pid ∈ b.group.reaped
    · simp [reap, hp, hreaped]
    · rw [reap_of_live setting host hp hreaped]
      rfl

/-- A start hands on what waits, and then at most one attempt is made. -/
theorem start_delivers (setting : Setting) (invocation : Invocation) :
    (start setting invocation).Keeps fun b l b' => b.machine.Delivers l b'.machine := by
  intro host b
  have hbuffer := standardBuffer_start setting invocation host b
  have hflushed := Machine.Delivers.flushed b.machine
  have hspec := start_spec setting invocation host b
  generalize start setting invocation host b = r at hbuffer hspec
  unfold Machine.Delivers at hflushed ⊢
  rw [hbuffer]
  cases hspec with
  | refused => exact hflushed
  | failed => exact hflushed.append (.other rfl (fun _ => rfl) (.nil ""))
  | running _ p message =>
    refine hflushed.append (.of_forall ?_ fun _ _ _ => rfl)
    intro e he
    rcases List.mem_cons.mp he with rfl | he
    · rfl
    · rcases List.mem_cons.mp he with rfl | he
      · rfl
      · rw [Setting.mem_notices he]
        rfl

theorem starts_deliver (setting : Setting) :
    Starts setting fun b l b' => b.machine.Delivers l b'.machine where
  toIsPath := Machine.Delivers.isPath.comap Block.machine
  start := start_delivers setting
  pipe host b := by
    simp only [Action.inBlock, Action.zoom_apply, Machine.pipe_apply]
    split <;> exact .single ⟨rfl, rfl⟩ rfl
  close _ _ := .single ⟨rfl, rfl⟩ rfl

theorem tends_deliver (setting : Setting) :
    Tends setting fun b l b' => b.machine.Delivers l b'.machine where
  toIsPath := Machine.Delivers.isPath.comap Block.machine
  log _ _ _ := .single ⟨rfl, rfl⟩ rfl
  reap i host b := by
    refine .of_still (fun e he => ?_) (standardBuffer_reap setting i host b)
    have htending := (tends_isTending setting).reap i host b e he
    cases e <;> first | exact ⟨rfl, rfl⟩ | cases htending
  terminate _ _ := .single ⟨rfl, rfl⟩ rfl

theorem foreground_delivers (setting : Setting) (invocation : Invocation) :
    (foreground setting invocation).Keeps Machine.Delivers :=
  foreground_keeps (starts_deliver setting) (tends_deliver setting) invocation

end Group

/-! ## Shells -/

namespace Shell

theorem redirect_delivers (setting : Setting) (source : String) (mode : OpenMode)
    (target : String) : (Redirect.run setting source mode target).Keeps Machine.Delivers := by
  refine Redirect.run_keeps Machine.Delivers.isPath ?_ ?_ ?_ ?_
    fun _ _ => Group.foreground_delivers setting _
  · exact fun _ => .single ⟨rfl, rfl⟩ rfl
  · exact fun _ => .single ⟨rfl, rfl⟩ rfl
  · exact fun _ => .single ⟨rfl, rfl⟩ rfl
  · exact fun _ _ => .single ⟨rfl, rfl⟩ rfl

/-- All that a shell does that writes to the standard output delivers what it writes. -/
theorem obeys_delivers {shell : Shell} (houtput : shell.setting.output = .standard) :
    shell.Obeys Machine.Delivers := by
  have hprint : ∀ text, (shell.setting.print text).Keeps Machine.Delivers := by
    intro text
    rw [Setting.print, houtput]
    exact .write text
  have hflush : (Machine.flush shell.setting.output).Keeps Machine.Delivers := by
    rw [houtput]
    exact .flush
  have hlog : ∀ (m : Machine) source message, m.Delivers [.log source message] m :=
    fun _ _ _ => .single ⟨rfl, rfl⟩ rfl
  exact {
    toIsPath := Machine.Delivers.isPath
    log := hlog
    call := fun _ _ _ _ => .single ⟨rfl, rfl⟩ rfl
    install := Machine.Delivers.install
    print := hprint
    flush := hflush
    builtin := fun command => builtin_keeps_of_calls Machine.Delivers.isPath hlog
      .workingDirectory .changeDirectory
      (fun text => .bind Machine.Delivers.isPath (hprint _) fun _ => hflush) command
      (fun _ pid => .kill pid _) fun _ args => Group.foreground_delivers shell.setting _
    foreground := fun program args => Group.foreground_delivers shell.setting _
    redirect := redirect_delivers shell.setting
    pipeline := Pipeline.run_keeps (Group.starts_deliver shell.setting)
      (Group.tends_deliver shell.setting) }

/-- The output of a sequence of steps, and the attempts of the steps to start processes. -/
structure OutputFirst (setting : Setting) (s : Session)
    (records : List (Result Session (Option (List String)))) : Prop where
  /-- At every moment, what has been handed on and what still waits are all that has been
      written, and what had been waiting at the beginning, in order. -/
  conserved : ∀ before after, trace records = before ++ after →
    s.machine.standardBuffer ++ written before
      = handedOn before ++ pendingAfter s.machine.standardBuffer before
  /-- What waits is what the machine has kept. -/
  waiting : ∀ n, (sessionAfter s (records.take n)).machine.standardBuffer
    = pendingAfter s.machine.standardBuffer (trace (records.take n))
  /-- Where a process is started, or the system refuses to start it, nothing waits: all that has
      been written has been handed on. -/
  started : ∀ before e after, trace records = before ++ e :: after → e.isLaunch = true →
    pendingAfter s.machine.standardBuffer before = "" ∧
      s.machine.standardBuffer ++ written before = handedOn before
  /-- Every attempt is made with nothing waiting, after what has been written has been handed on. -/
  attempted : ∀ invocation host b, Group.start setting invocation host b =
    (Group.start setting invocation host
      { b with machine := { b.machine with standardBuffer := "" } }).after b.machine.flushed
  /-- That is so also where an attempt is refused for its arguments, which is no event. -/
  refused : ∀ invocation host b, invocation.argv.any Machine.hasNull = true →
    Group.start setting invocation host b =
      ⟨.error .embeddedNull, { b with machine := { b.machine with standardBuffer := "" } },
        b.machine.flushed⟩

/-- Whatever steps are done on a shell that writes to the standard output, nothing that is written
    is lost or overtaken, and all of it comes out before a process is started. -/
theorem runSteps_outputFirst (shell : Shell) (host : Host) (s : Session) (steps : List Step)
    (houtput : shell.setting.output = .standard) :
    OutputFirst shell.setting s (runSteps host shell s steps) := by
  have hdelivers := (obeys_delivers houtput).runSteps host s steps
  have hall := hdelivers (runSteps host shell s steps).length
  rw [List.take_length] at hall
  refine ⟨fun before after htrace => ?_, fun n => (hdelivers n).left_eq,
    fun before e after htrace he => ?_, Group.start_eq_after_flush shell.setting,
    fun invocation host b hnull => Group.start_of_null shell.setting hnull host b⟩
  · simp only [htrace] at hall
    exact hall.split.1.conserved
  · simp only [htrace] at hall
    have hnone := hall.pendingAfter_of_launch he
    have hconserved := hall.split.1.conserved
    rw [hnone, String.append_empty] at hconserved
    exact ⟨hnone, hconserved⟩

/-- A handler that writes with and without handing on, around a start; then a start that fails and
    one that is refused. -/
theorem runSteps_outputFirst_handler :
    let shell : Shell := {}
    let s : Session := { machine := { programs := fun name =>
      if name = "p" then [.started {}] else [] } }
    let steps : List Step := [
      .register "h" [.print "a", .writeLine "b", .execute "p", .print "c"] false,
      .print "x", .execute "h", .execute "missing", .print "y",
      .run (.command "p" ["p", "\x00"]), .print "z"]
    let records := runSteps {} shell s steps
    shell.setting.output = .standard ∧
      OutputFirst shell.setting s records ∧
      (trace records).filter (fun e => e.isOutput || e.isLaunch) =
        [.write .standard "x", .write .standard "a", .write .standard "b\n",
          .out .standard "xab\n", .spawn 101 ["p"] .inherited .inherited .inherited none,
          .write .standard "c", .out .standard "c",
          .spawnFailed ["missing"] .inherited .inherited,
          .write .standard "y", .out .standard "y", .write .standard "z"] ∧
      (sessionAfter s records).machine.standardBuffer = "z" := by
  intro shell s steps records
  exact ⟨rfl, runSteps_outputFirst shell {} s steps rfl, by decide +kernel, by decide +kernel⟩

end Shell

end LineShell
