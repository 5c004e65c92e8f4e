/-
  LineShell.Proofs.Shell.Reported

  The failures that come out of a dispatched line.

  On a system whose calls fail only with failures of the system, a shell with just
  the built-in commands claims these failures as its own, so that a read loop
  reports what comes out of a line and goes on.  There are two exceptions
  (`Escapes`): the working directory cannot be told, and a process number does not
  fit the system.  Whatever comes out unreported is one of these two
  (`execute_reported`), and both do come out (`execute_escapes`).  Nothing else ends
  an interactive read loop with a failure (`readLines_concludes`).
-/

import LineShell.Proofs.Builtin.Reported
import LineShell.Proofs.Pipeline.Reported
import LineShell.Proofs.ReadLoop.Inversion
import LineShell.Proofs.Redirect.Reported
import LineShell.Proofs.Shell.Plain

namespace LineShell

/-- The calls fail as calls on the system do, and handlers can be put in place. -/
structure Host.Sound (host : Host) : Prop where
  directories : ∀ path f, host.directories path = some (.error f) → f.isSystem = true
  cwd : ∀ f, host.cwdFailure = some f → f.isSystem = true
  opens : ∀ path f, host.openFailures path = some f → f.isSystem = true
  targets : ∀ pid f, host.targets pid = some (some f) → f.isSystem = true
  pipes : ∀ n f, host.pipeFailures n = some f → f.isSystem = true
  installs : ∀ n, host.installFailures n = none

/-- The failures that no part of the shell claims. -/
inductive Escapes (host : Host) (t : Tree) : Failure → Prop
  | cwd {text : String} {args : List String} {f : Failure}
      (hleaf : .command text ("pwd" :: args) ∈ t.leaves) (hf : host.cwdFailure = some f) :
      Escapes host t f
  | pid {text : String} {args : List String} {pid : Int} {f : Failure}
      (hleaf : .command text ("kill" :: args) ∈ t.leaves)
      (hpid : Builtin.killTarget args = .ok pid) (hf : Machine.pidOverflow? pid = some f) :
      Escapes host t f

/-- Queues change only where a process is started. -/
theorem Machine.Spends.of_calm {m m' : Machine} {l : List Event} (h : m.Calm l m') :
    m.Spends m' := by
  intro program
  rw [h.2.programs]

theorem builtin_of_find? {name : String} {handler : Handler}
    (h : builtinCommands.find? name = some handler) :
    ∃ command : Builtin, name = command.name ∧ handler = .builtin command := by
  obtain ⟨command, -, hentry⟩ := List.mem_map.mp (Table.mem_entries_of_find? h)
  cases hentry
  exact ⟨command, rfl, rfl⟩

namespace Shell

variable {shell : Shell} {host : Host} {t : Tree}

/-- A command of a shell with just the built-in commands is one of these, however many scripts
    are under way, or a program. -/
theorem runCommand_cases (hcommands : shell.commands = builtinCommands) (depth : Nat)
    (text name : String) (args : List String) :
    let ran := runCommand shell (interpreter shell depth) text (name :: args)
    (∃ command : Builtin, name = command.name ∧
        ran = (command.run shell.setting args text).inSession) ∨
      ran = (Group.foreground shell.setting { program := name, args }).inSession := by
  intro ran
  simp only [ran, runCommand, hcommands]
  cases hfind : builtinCommands.find? name with
  | some handler =>
    obtain ⟨command, rfl, rfl⟩ := builtin_of_find? hfind
    exact .inl ⟨command, rfl, by cases depth <;> rfl⟩
  | none => exact .inr rfl

/-! ## What a line is made of -/

/-- Whatever a shell does, it takes from the queues of programs at most. -/
theorem obeys_spends (shell : Shell) : shell.Obeys fun m _ m' => m.Spends m' where
  toIsPath := Machine.Spends.isPath
  log _ _ _ _ := List.suffix_rfl
  call _ _ _ _ _ := List.suffix_rfl
  install signum handler host m := by
    cases h : host.installFailures m.installCalls with
    | some f =>
      rw [Machine.install_apply_of_some h]
      exact fun _ => List.suffix_rfl
    | none =>
      rw [Machine.install_apply_of_none h]
      exact fun _ => List.suffix_rfl
  print text := (Machine.write_calm _ text).mono fun _ _ _ => .of_calm
  flush := (Machine.flush_calm _).mono fun _ _ _ => .of_calm
  builtin := builtin_keeps (fun _ _ _ => .of_calm) fun _ _ =>
    Group.foreground_spends shell.setting _
  foreground _ _ := Group.foreground_spends shell.setting _
  redirect := Redirect.run_spends shell.setting
  pipeline := Pipeline.run_keeps (Group.starts_spends shell.setting)
    (Group.tends_spends shell.setting)

/-- Soundness lasts, and if the numbers of the processes are distinct within groups, a failure
    is reported or escapes. -/
def Reporting (host : Host) (t : Tree) : Contract Session := fun s l failure? s' =>
  s.machine.Sound → s'.machine.Sound ∧
    (DistinctInGroups l → ∀ f, failure? = some f → f.isReported = true ∨ Escapes host t f)

theorem reporting_tolerant (host : Host) (t : Tree) : (Reporting host t).Tolerant where
  nil _ hsound := ⟨hsound, fun _ => nofun⟩
  append h₁ h₂ hsound := by
    obtain ⟨hsound₂, -⟩ := h₁ hsound
    obtain ⟨hsound₃, hfailure⟩ := h₂ hsound₂
    exact ⟨hsound₃, fun hdistinct => hfailure (hdistinct.of_isInfix List.infix_append_right)⟩
  caught _ h hsound := ⟨(h hsound).1, fun _ => nofun⟩
  raised _ _ hf hsound := by
    refine ⟨hsound, fun _ f h => ?_⟩
    cases h
    exact .inl (Failure.isReported_of_isShell hf)
  log _ _ _ hsound := ⟨hsound, fun _ => nofun⟩

/-- An action of the machine that takes from the queues of programs at most. -/
theorem inSession_reporting {x : Action Machine Unit} (hspends : x.Keeps fun m _ m' => m.Spends m')
    (hfails : ∀ m, m.Sound → DistinctInGroups (x host m).events →
      ∀ f, (x host m).outcome = .error f → f.isReported = true ∨ Escapes host t f) :
    x.inSession.Meets host (Reporting host t) := by
  intro s hsound
  refine ⟨hsound.of_spends (hspends host s.machine), fun hdistinct f hf => ?_⟩
  exact hfails s.machine hsound hdistinct f (Result.failure?_eq_some.mp hf)

theorem foreground_reporting {setting : Setting} (hsilent : setting.Silent)
    {invocation : Invocation} (hnull : invocation.argv.any Machine.hasNull = false) :
    (Group.foreground setting invocation).inSession.Meets host (Reporting host t) :=
  inSession_reporting (Group.foreground_spends setting invocation) fun _ hsound _ _ hf =>
    .inl (Group.foreground_reported hsilent hnull hsound hf)

/-- A built-in command that stands in the tree by its name. -/
theorem builtin_reporting {setting : Setting} (hsilent : setting.Silent) (hhost : host.Sound)
    (hhome : ∀ home, (setting.visible host).lookup "HOME" = some home →
      Machine.hasNull home = false)
    {text : String} {args : List String} {command : Builtin}
    (hleaf : .command text (command.name :: args) ∈ t.leaves)
    (hnull : ∀ arg ∈ args, Machine.hasNull arg = false) :
    (command.run setting args text).inSession.Meets host (Reporting host t) := by
  have hspends : (command.run setting args text).Keeps fun m _ m' => m.Spends m' :=
    (obeys_spends { setting }).builtin command args text
  cases command with
  | pwd =>
    exact inSession_reporting hspends fun _ _ _ _ hf =>
      .inr (.cwd hleaf (Builtin.runPwd_failure hf))
  | cd =>
    exact inSession_reporting hspends fun _ _ _ _ hf =>
      .inl (Builtin.runCd_reported hhost.directories hnull hhome hf)
  | kill =>
    refine inSession_reporting hspends fun _ _ _ _ hf => ?_
    rcases Builtin.runKill_failure hhost.targets hf with hreported | ⟨pid, hpid, hoverflow⟩
    · exact .inl hreported
    · exact .inr (.pid hleaf hpid hoverflow)
  | ps =>
    refine foreground_reporting hsilent ?_
    cases args with
    | nil => decide
    | cons arg rest =>
      have hps : Machine.hasNull "ps" = false := by decide
      simpa [Invocation.argv, hps] using hnull
  | echo =>
    refine inSession_reporting hspends fun m _ _ f hf => ?_
    have hok := Builtin.outcome_writeLine setting (Builtin.echoMessage text) host m
    cases hok.symm.trans hf

section Lines

variable (hcommands : shell.commands = builtinCommands) (hsilent : shell.setting.Silent)
  (hhost : host.Sound)
  (hhome : ∀ home, (shell.setting.visible host).lookup "HOME" = some home →
    Machine.hasNull home = false)

include hcommands hsilent hhost hhome

/-- A plain command that stands in the tree. -/
theorem command_reporting {text : String} {words : List String}
    (hleaf : .command text words ∈ t.leaves) (hnull : ∀ word ∈ words, Machine.hasNull word = false)
    (depth : Nat) :
    (runCommand shell (interpreter shell depth) text words).Meets host (Reporting host t) := by
  cases words with
  | nil => exact .pure (reporting_tolerant host t).toSequential ()
  | cons name args =>
    rcases runCommand_cases hcommands depth text name args with ⟨command, rfl, hran⟩ | hran
    · rw [hran]
      exact builtin_reporting hsilent hhost hhome hleaf
        fun arg harg => hnull arg (List.mem_cons_of_mem _ harg)
    · rw [hran]
      exact foreground_reporting hsilent (by simpa [Invocation.argv] using hnull)

/-- A leaf of a tree whose texts hold no null character. -/
theorem leaf_reporting {leaf : Tree} (hleaf : leaf ∈ t.leaves)
    (hnull : ∀ text ∈ leaf.texts, Machine.hasNull text = false) (depth : Nat) :
    (runTree shell (interpreter shell depth) leaf).Meets host (Reporting host t) := by
  cases leaf with
  | command text words =>
    rw [runTree]
    have hwords := fun word hword => hnull word (List.mem_cons_of_mem text hword)
    exact command_reporting hcommands hsilent hhost hhome hleaf hwords depth
  | redirect source mode target =>
    rw [runTree]
    refine inSession_reporting ((obeys_spends shell).redirect source mode target)
      fun m hsound _ _ hf => ?_
    have hsource := hnull source (by simp [Tree.texts])
    have htarget := hnull target (by simp [Tree.texts])
    exact .inl (Redirect.run_reported hsilent hhost.opens hsource htarget hsound hf)
  | pipeline stages =>
    rw [runTree]
    have hspends := (obeys_spends shell).pipeline stages
    have hstages : ∀ stage ∈ stages, stage.any Machine.hasNull = false := by
      intro stage hstage
      have hwords := fun word hword => hnull word (List.mem_flatten.mpr ⟨stage, hstage, hword⟩)
      simpa using hwords
    exact inSession_reporting hspends fun _ hsound hdistinct _ hf =>
      .inl (Pipeline.run_reported hsilent hhost.pipes hstages hsound hdistinct hf)
  | conditional groups => exact absurd hleaf (Tree.conditional_notMem_leaves t groups)

/-- The failures of a line that holds no null character. -/
theorem execute_reporting {line : String} (hnull : Machine.hasNull line = false) :
    (shell.execute line).Meets host (Reporting host (Tree.parse line)) := by
  have hleaves : ∀ leaf ∈ (Tree.parse line).leaves,
      (runTree shell (interpreter shell maxDepth) leaf).Meets host
        (Reporting host (Tree.parse line)) := by
    refine fun leaf hleaf => leaf_reporting hcommands hsilent hhost hhome hleaf ?_ maxDepth
    exact fun text htext =>
      Machine.hasNull_of_isInfix (Tree.isInfix_of_mem_texts hleaf htext) hnull
  have htree : (shell.run (Tree.parse line)).Meets host (Reporting host (Tree.parse line)) :=
    runTree_meets (reporting_tolerant host _) (Tree.parse line) hleaves
  intro s hsound
  obtain ⟨hsound', hreported⟩ := htree (Governor.exposedSession shell.policy s) hsound
  obtain ⟨message, message', hrun⟩ := Governor.exposed_apply_of_installs hhost.installs
    shell.policy (shell.run (Tree.parse line)) s
  rw [execute_apply, hrun]
  -- The calls for a handler change no queue and fail in no way, so it is the tree that counts.
  generalize shell.run (Tree.parse line) host (Governor.exposedSession shell.policy s) = ran
    at hsound' hreported
  refine ⟨hsound', fun hdistinct => hreported (hdistinct.of_isInfix ?_)⟩
  -- What the tree does stands between the two calls for a handler.
  refine List.IsInfix.trans ?_ (List.suffix_append _ _).isInfix
  exact (List.prefix_append _ _).isInfix.trans (List.suffix_append [_, _] _).isInfix

end Lines

end Shell

/-! ## Lines that are dispatched -/

namespace ReadLoop

variable {host : Host}

theorem dispatch_escapes {shell : Shell} {line : String} {s : Session}
    (h : ∀ f, (shell.execute line host s).failure? = some f →
      f.isReported = true ∨ Escapes host (Tree.parse line) f) {f : Failure}
    (hf : (dispatch shell line host s).outcome = .error f) : Escapes host (Tree.parse line) f := by
  obtain ⟨hexecute, hunreported⟩ := ((dispatch_spec shell line host s).2.2 f).mp hf
  refine (h f (Result.failure?_eq_some.mpr hexecute)).resolve_left ?_
  rw [hunreported]
  exact Bool.false_ne_true

end ReadLoop

namespace Shell

/-- Whatever comes out of a line that holds no null character, on a sound machine, is reported by
    a read loop or is one of the two failures that escape; no other ends the read loop. -/
theorem execute_reported (shell : Shell) (hcommands : shell.commands = builtinCommands)
    (hsilent : ∀ hook, shell.setting.hook = some hook → ∀ n event, hook n event = none)
    (host : Host) (hhost : host.Sound)
    (hhome : ∀ home, (shell.setting.visible host).lookup "HOME" = some home →
      Machine.hasNull home = false)
    (line : String) (hnull : Machine.hasNull line = false) (s : Session)
    (hsound : s.machine.Sound) (hdistinct : DistinctInGroups (shell.execute line host s).events) :
    (∀ f, (shell.execute line host s).outcome = .error f →
        f.isReported = true ∨ Escapes host (Tree.parse line) f) ∧
      ∀ f, (ReadLoop.dispatch shell line host s).outcome = .error f →
        Escapes host (Tree.parse line) f := by
  have hexecute := (execute_reporting hcommands hsilent hhost hhome hnull s hsound).2 hdistinct
  exact ⟨fun f hf => hexecute f (Result.failure?_eq_some.mpr hf),
    fun f hf => ReadLoop.dispatch_escapes hexecute hf⟩

theorem hostWithoutCwd_sound : Host.Sound { cwdFailure := some .noSuchFile } where
  directories _ _ := nofun
  cwd _ hf := by
    cases hf
    rfl
  opens _ _ := nofun
  targets _ _ := nofun
  pipes _ _ := nofun
  installs _ := rfl

/-- Programs that do not exist and a working directory that is gone. -/
theorem execute_reported_missing :
    let host : Host := { cwdFailure := some .noSuchFile }
    let line := "missing | missing || pwd"
    host.Sound ∧
      (∀ f, (Shell.execute {} line host { machine := {} }).outcome = .error f →
        f.isReported = true ∨ Escapes host (Tree.parse line) f) ∧
      ∀ f, (ReadLoop.dispatch {} line host { machine := {} }).outcome = .error f →
        Escapes host (Tree.parse line) f := by
  intro host line
  refine ⟨hostWithoutCwd_sound, ?_⟩
  exact execute_reported {} rfl (fun _ => nofun) host hostWithoutCwd_sound (fun _ => nofun) line
    (by decide +kernel) { machine := {} } (fun _ _ => nofun) (by decide +kernel)

/-- Both failures do come out on a sound host, and neither is reported. -/
theorem execute_escapes :
    let host : Host := { cwdFailure := some .noSuchFile }
    host.Sound ∧ ∀ line ∈ ["pwd", "kill 2147483648"],
      let r := Shell.execute {} line host { machine := {} }
      Machine.hasNull line = false ∧ DistinctInGroups r.events ∧
        ∃ f, r.outcome = .error f ∧ f.isReported = false := by
  refine ⟨hostWithoutCwd_sound, ?_⟩
  simp only [List.mem_cons, List.not_mem_nil, or_false, forall_eq_or_imp, forall_eq]
  refine ⟨⟨by decide +kernel, by decide +kernel, .noSuchFile, ?_, rfl⟩,
    ⟨by decide +kernel, by decide +kernel,
      .fault .overflow "signed integer is greater than maximum", ?_, rfl⟩⟩
  all_goals
    apply Result.failure?_eq_some.mp
    decide +kernel

end Shell

namespace ReadLoop

/-- The reading of the lines has ended with success, or else with a failure that escapes from
    one of them. -/
def Concludes (host : Host) (lines : List String) (r : Result Session Ending) : Prop :=
  ∃ ending, r.outcome = .ok ending ∧ (ending.status = .ok 0 ∨
    ∃ f, ending.status = .error f ∧ ∃ raw ∈ lines, Escapes host (Tree.parse (prepare host raw)) f)

theorem Concludes.cons {rest : List String} {r : Result Session Ending}
    (h : Concludes host rest r) (raw : String) : Concludes host (raw :: rest) r := by
  obtain ⟨ending, hending, hstatus⟩ := h
  refine ⟨ending, hending, hstatus.imp_right ?_⟩
  rintro ⟨f, hf, line, hline, hescapes⟩
  exact ⟨f, hf, line, List.mem_cons_of_mem raw hline, hescapes⟩

/-- Of all that a line can come to, only a failure that escapes ends an interactive read loop
    with a failure. -/
theorem readLines_concludes {shell : Shell} (hcommands : shell.commands = builtinCommands)
    (hsilent : shell.setting.Silent) (hhost : host.Sound)
    (hhome : ∀ home, (shell.setting.visible host).lookup "HOME" = some home →
      Machine.hasNull home = false)
    (lines : List String) (hnull : ∀ raw ∈ lines, Machine.hasNull (prepare host raw) = false)
    (s : Session) (hsound : s.machine.Sound)
    (hdistinct : DistinctInGroups (readLines shell true lines host s).events) :
    Concludes host lines (readLines shell true lines host s) := by
  induction lines generalizing s with
  | nil => exact ⟨⟨.ok 0, []⟩, rfl, .inl rfl⟩
  | cons raw rest ih =>
    have ih := ih fun line hline => hnull line (List.mem_cons_of_mem raw hline)
    have hraw : raw ∈ raw :: rest := List.mem_cons_self
    obtain ⟨hsound', hreported⟩ :=
      Shell.execute_reporting hcommands hsilent hhost hhome (hnull raw hraw) s hsound
    obtain ⟨hstate, ⟨l, hevents, -⟩, -⟩ := dispatch_spec shell (prepare host raw) host s
    rw [← hstate] at hsound'
    obtain ⟨r, hread, hr⟩ := readLines_cons shell true raw rest host s
    rw [hr] at hdistinct ⊢
    replace hdistinct : DistinctInGroups r.events := hdistinct.of_isInfix List.infix_append_right
    cases hread with
    | empty => exact (ih s hsound hdistinct).cons raw
    | exited => exact ⟨_, rfl, .inl rfl⟩
    | blank => exact (ih s hsound hdistinct).cons raw
    | @failed f s' l' h =>
      rw [h] at hevents
      have hescapes := dispatch_escapes
        (hreported (hdistinct.of_isInfix (hevents ▸ List.infix_append_left))) (by rw [h])
      exact ⟨_, rfl, .inr ⟨f, rfl, raw, hraw, hescapes⟩⟩
    | @dispatched status s' l' h =>
      rw [h] at hsound'
      exact (ih s' hsound' (hdistinct.of_isInfix List.infix_append_right)).cons raw

end ReadLoop

end LineShell
