/-
  LineShell.Proofs.Shell.External

  What a shell does through programs alone.

  The table of a shell is looked at where a plain command is run, and nowhere else.
  So a tree without plain commands that stand in the table is run the same whatever
  the table holds (`run_eq_of_no_handler`): its commands, the stages of its pipelines
  and its redirected commands are programs, by whatever names, and they neither
  change the directory of the shell nor send a signal or write in its place.
-/

import LineShell.Proofs.Pipeline.Order
import LineShell.Proofs.Redirect.Inversion
import LineShell.Proofs.Shell.Obeys

namespace LineShell

/-! ## Trees and the programs in them -/

/-- The argument lists of the programs that a leaf stands for, in the order of their start. -/
def Tree.programs : Tree → List (List String)
  | .command _ words => [words].filter (· ≠ [])
  | .redirect source _ _ => [Text.words source].filter (· ≠ [])
  | .pipeline stages => stages
  | .conditional _ => []

namespace Shell

variable {shell shell₁ shell₂ : Shell} {interpret₁ interpret₂ : Interpreter} {t : Tree}

mutual

/-- Trees are run the same where their leaves are. -/
theorem runTree_congr (t : Tree)
    (hleaves : ∀ leaf ∈ t.leaves,
      runTree shell₁ interpret₁ leaf = runTree shell₂ interpret₂ leaf) :
    runTree shell₁ interpret₁ t = runTree shell₂ interpret₂ t := by
  match t with
  | .command text words => exact hleaves _ (by simp [Tree.leaves])
  | .redirect source mode target => exact hleaves _ (by simp [Tree.leaves])
  | .pipeline stages => exact hleaves _ (by simp [Tree.leaves])
  | .conditional groups =>
    rw [runTree, runTree]
    exact runGroups_congr 0 groups hleaves

theorem runGroups_congr (index : Nat) (groups : List (List Tree))
    (hleaves : ∀ leaf ∈ Tree.leavesOfGroups groups,
      runTree shell₁ interpret₁ leaf = runTree shell₂ interpret₂ leaf) :
    runGroups shell₁ interpret₁ index groups = runGroups shell₂ interpret₂ index groups := by
  match groups with
  | [] => rw [runGroups, runGroups]
  | group :: rest =>
    simp only [Tree.leavesOfGroups, List.forall_mem_append] at hleaves
    rw [runGroups, runGroups, runAlternatives_congr none group hleaves.1,
      runGroups_congr (index + 1) rest hleaves.2]

theorem runAlternatives_congr (failure : Option Failure) (group : List Tree)
    (hleaves : ∀ leaf ∈ Tree.leavesOfGroup group,
      runTree shell₁ interpret₁ leaf = runTree shell₂ interpret₂ leaf) :
    runAlternatives shell₁ interpret₁ failure group
      = runAlternatives shell₂ interpret₂ failure group := by
  match group with
  | [] => rw [runAlternatives, runAlternatives]
  | alternative :: rest =>
    simp only [Tree.leavesOfGroup, List.forall_mem_append] at hleaves
    have hrest := fun f => runAlternatives_congr (some f) rest hleaves.2
    rw [runAlternatives, runAlternatives, runTree_congr alternative hleaves.1]
    simp only [hrest]

end

/-- A leaf that the table has no say in. -/
theorem runTree_leaf_congr (hsetting : shell₁.setting = shell₂.setting) {leaf : Tree}
    (hleaf : leaf ∈ t.leaves)
    (hnames : ∀ text name args, .command text (name :: args) ∈ t.leaves →
      shell₁.commands.find? name = none ∧ shell₂.commands.find? name = none) :
    runTree shell₁ interpret₁ leaf = runTree shell₂ interpret₂ leaf := by
  cases leaf with
  | command text words =>
    rw [runTree, runTree]
    cases words with
    | nil => rfl
    | cons name args =>
      obtain ⟨h₁, h₂⟩ := hnames text name args hleaf
      simp only [runCommand, h₁, h₂, hsetting]
  | redirect source mode target => rw [runTree, runTree, hsetting]
  | pipeline stages => rw [runTree, runTree, hsetting]
  | conditional groups => exact absurd hleaf (Tree.conditional_notMem_leaves t groups)

end Shell

/-! ## What programs leave alone -/

/-- Whether the event is one of those that only commands of the shell's own cause. -/
def Event.isOwn : Event → Bool
  | .chdir .. | .kill .. | .write .. | .out .custom _ | .call .. => true
  | _ => false

/-- Nothing has been done by commands of the shell's own, and its directory is the same. -/
structure Machine.External (m : Machine) (l : List Event) (m' : Machine) : Prop where
  events : ∀ e ∈ l, e.isOwn = false
  cwd : m'.cwd = m.cwd

namespace Machine.External

theorem isPath : IsPath External where
  nil _ := ⟨List.forall_mem_nil _, rfl⟩
  append h₁ h₂ := ⟨List.forall_mem_append.mpr ⟨h₁.events, h₂.events⟩, h₂.cwd.trans h₁.cwd⟩

theorem single {e : Event} (he : e.isOwn = false) (m : Machine) : m.External [e] m :=
  ⟨List.forall_mem_singleton.mpr he, rfl⟩

end Machine.External

namespace Group

variable (setting : Setting)

theorem starts_external : Starts setting fun b l b' => b.machine.External l b'.machine where
  toIsPath := Machine.External.isPath.comap Block.machine
  start invocation host b := by
    obtain ⟨hattempt, hm⟩ := (start_spec setting invocation host b).attempt
    refine ⟨?_, hm.cwd⟩
    exact hattempt.forall_mem (fun _ => rfl) (fun _ => rfl) (fun _ => rfl) rfl fun _ => rfl
  pipe host b := by
    simp only [Action.inBlock, Action.zoom_apply, Machine.pipe_apply]
    split <;> exact ⟨List.forall_mem_singleton.mpr rfl, rfl⟩
  close b _ := .single rfl b.machine

theorem tends_external : Tends setting fun b l b' => b.machine.External l b'.machine where
  toIsPath := Machine.External.isPath.comap Block.machine
  log b _ _ := .single rfl b.machine
  reap i host b := by
    have htending := (tends_isTending setting).reap i host b
    have hspec := reap_spec setting i host b
    generalize reap setting i host b = r at hspec htending
    have hevents : ∀ e ∈ r.events, e.isOwn = false := by
      intro e he
      have htending := htending e he
      cases e <;> first | rfl | cases htending
    cases hspec with
    | absent => exact Machine.External.isPath.nil b.machine
    | again => exact Machine.External.isPath.nil b.machine
    | ended _ _ _ _ hm _ _ => exact ⟨hevents, hm.cwd⟩
  terminate {b _ _} _ _ := .single rfl b.machine

theorem foreground_external (invocation : Invocation) :
    (foreground setting invocation).Keeps Machine.External :=
  foreground_keeps (starts_external setting) (tends_external setting) invocation

/-- The one start of a process in the foreground; where it is not attempted, there is a
    failure. -/
theorem attempted_foreground (invocation : Invocation) (host : Host) (m : Machine) :
    let r := foreground setting invocation host m
    Pipeline.attempted r.events <+: [invocation.argv] ∧
      (r.outcome = .ok () → Pipeline.attempted r.events = [invocation.argv]) := by
  intro r
  have htends := tends_isTending setting
  have hsecond : ∀ position, (wait setting position).Keeps _ := fun position => htends.wait position
  obtain ⟨tending, hevents, htending⟩ := htends.closing_bind hsecond host { machine := m }
  obtain ⟨hattempt, -⟩ := (start_spec setting invocation host { machine := m }).attempt
  have hattempted : Pipeline.attempted r.events
      = Pipeline.attempted (start setting invocation host { machine := m }).events := by
    show Pipeline.attempted (closing setting (start setting invocation >>= wait setting) host
      { machine := m }).events = _
    rw [hevents, Pipeline.attempted_append, (Pipeline.abandoned_of_tending htending).1,
      List.append_nil]
  rw [hattempted]
  rcases Pipeline.attempted_attempt hattempt with hone | ⟨hfailed, hnone, -⟩
  · rw [hone]
    exact ⟨List.prefix_rfl, fun _ => rfl⟩
  · rw [hnone]
    refine ⟨List.nil_prefix, fun hok => ?_⟩
    -- A start that fails makes the whole block fail.
    have hfails : ∃ f, r.outcome = .error f := by
      show ∃ f, (closing setting (start setting invocation >>= wait setting) host
        { machine := m }).outcome = .error f
      rw [closing_apply, Action.bind_apply]
      generalize start setting invocation host { machine := m } = started at hfailed
      obtain ⟨f | position, b, l⟩ := started
      · exact leave_error setting f host b
      · cases hfailed
    obtain ⟨f, hf⟩ := hfails
    rw [hok] at hf
    cases hf

end Group

namespace Pipeline

/-- Where all stages are started, all starts have reached the system. -/
theorem StartTrace.attempted_eq {setting : Setting} {readEnd : Option Descriptor} {n : Descriptor}
    {stages : List Invocation} {ok : Bool} {l : List Event}
    (h : StartTrace setting readEnd n stages ok l) (hok : ok = true) :
    attempted l = stages.map Invocation.argv := by
  have hone : ∀ {invocation : Invocation} {a : List Event},
      Group.Attempt setting invocation true a → attempted a = [invocation.argv] := by
    intro invocation a ha
    exact (attempted_attempt ha).resolve_right fun hfailed => Bool.noConfusion hfailed.1
  induction h with
  | @done readEnd => exact (abandoned_closes readEnd).1
  | noPipe => cases hok
  | @last readEnd n stage ok a ha =>
    subst hok
    rw [attempted_append, hone ha, (abandoned_closes readEnd).1]
    rfl
  | stopped => cases hok
  | @started readEnd n stage rest a l ok _ ha _ ih =>
    rw [attempted_stage, hone ha, ih hok]
    rfl

theorem attempted_run (setting : Setting) (stages : List (List String)) (host : Host)
    (m : Machine) :
    let r := run setting stages host m
    attempted r.events <+: stages ∧ (r.outcome = .ok () → attempted r.events = stages) := by
  intro r
  refine ⟨(run_orderly setting stages host m).attempts, fun hok => ?_⟩
  rcases events_run setting stages host m with
    hrun | ⟨invocations, ok, starts, tending, hstages, hevents, hstarts, htending, hfailed⟩
  · simp only [r, hrun] at hok
    cases hok
  · obtain ⟨hargv, -⟩ := of_mapM_ofWords hstages
    have hall : ok = true := by
      cases ok with
      | true => rfl
      | false =>
        obtain ⟨f, hf⟩ := hfailed rfl
        cases hok.symm.trans hf
    show attempted (run setting stages host m).events = _
    rw [hevents, attempted_append, hstarts.attempted_eq hall,
      (abandoned_of_tending htending).1, List.append_nil, hargv]

end Pipeline

namespace Redirect

theorem run_external (setting : Setting) (source : String) (mode : OpenMode) (target : String) :
    (run setting source mode target).Keeps Machine.External := by
  refine run_keeps Machine.External.isPath ?_ ?_ ?_ ?_
    fun _ _ => Group.foreground_external setting _
  · exact fun m => .single rfl m
  · exact fun _ => ⟨List.forall_mem_singleton.mpr rfl, rfl⟩
  · exact fun m => .single rfl m
  · exact fun m _ => .single rfl m

/-- A redirected command is a program whatever its name is. -/
theorem attempted_run (setting : Setting) (source : String) (mode : OpenMode) (target : String)
    (host : Host) (m : Machine) :
    let r := run setting source mode target host m
    let programs := (Tree.redirect source mode target).programs
    Pipeline.attempted r.events <+: programs ∧
      (r.outcome = .ok () → Pipeline.attempted r.events = programs) := by
  intro r programs
  have hspec : Ran setting source mode target host m r := run_spec setting source mode target host m
  generalize r = r' at hspec
  cases hspec with
  | unopened f hl _ =>
    refine ⟨?_, fun hok => ?_⟩
    · rcases hl with rfl | rfl <;> exact List.nil_prefix
    · cases hok
  | blank hblank =>
    have hnone : programs = [] := by simp [programs, Tree.programs, hblank]
    rw [hnone]
    exact ⟨List.prefix_rfl, fun _ => rfl⟩
  | @program invocation message r' hwords hr =>
    obtain ⟨hfirst, hall⟩ := Group.attempted_foreground setting (attach mode target invocation)
      host (opened target m)
    rw [hr] at hfirst hall
    have hone : [(attach mode target invocation).argv] = programs := by
      have hargv := Invocation.argv_of_ofWords hwords
      have hne : Text.words source ≠ [] := hargv ▸ List.cons_ne_nil _ _
      simp [programs, Tree.programs, hargv, hne]
    -- Opening and closing the file starts nothing.
    have hevents : Pipeline.attempted (.openFile target mode true :: .log .redirect message ::
        (r'.events ++ [.closeFile target])) = Pipeline.attempted r'.events := by
      show Pipeline.attempted (r'.events ++ [.closeFile target]) = _
      rw [Pipeline.attempted_append]
      exact List.append_nil _
    rw [hevents, ← hone]
    exact ⟨hfirst, hall⟩

end Redirect

/-! ## Trees that are run by programs alone -/

namespace Shell

variable {shell : Shell} {interpret : Interpreter} {host : Host} {t leaf : Tree}

/-- No plain command in the tree stands in the table. -/
def Unhandled (t : Tree) (commands : Table Handler) : Prop :=
  ∀ text name args, .command text (name :: args) ∈ t.leaves → name ∉ commands.names

theorem Unhandled.find?_eq_none {commands : Table Handler} (h : Unhandled t commands)
    {text name : String} {args : List String} (hleaf : .command text (name :: args) ∈ t.leaves) :
    commands.find? name = none := by
  refine List.lookup_eq_none_iff.mpr fun entry hentry => ?_
  have hne : name ≠ entry.1 := by
    rintro rfl
    exact h text _ args hleaf (List.mem_map_of_mem hentry)
  simpa using hne

/-- A leaf of a tree without handlers is run by programs alone. -/
theorem runTree_leaf_external (hleaf : leaf ∈ t.leaves) (ht : Unhandled t shell.commands) :
    (runTree shell interpret leaf).Keeps (Session.Lift Machine.External) := by
  have hisPath := Machine.External.isPath.comap Session.machine
  cases leaf with
  | command text words =>
    rw [runTree]
    cases words with
    | nil => exact .pure hisPath ()
    | cons name args =>
      simp only [runCommand, ht.find?_eq_none hleaf]
      exact inSession_keeps (Group.foreground_external shell.setting _)
  | redirect source mode target =>
    rw [runTree]
    exact inSession_keeps (Redirect.run_external shell.setting source mode target)
  | pipeline stages =>
    rw [runTree]
    exact inSession_keeps (Pipeline.run_keeps (Group.starts_external shell.setting)
      (Group.tends_external shell.setting) stages)
  | conditional groups => exact absurd hleaf (Tree.conditional_notMem_leaves t groups)

/-- The programs that a leaf of such a tree stands for are started in order, and all of them
    unless it fails. -/
theorem attempted_runTree_leaf (hleaf : leaf ∈ t.leaves) (ht : Unhandled t shell.commands)
    (s : Session) :
    let r := runTree shell interpret leaf host s
    Pipeline.attempted r.events <+: leaf.programs ∧
      (r.outcome = .ok () → Pipeline.attempted r.events = leaf.programs) := by
  cases leaf with
  | command text words =>
    rw [runTree]
    cases words with
    | nil => exact ⟨List.prefix_rfl, fun _ => rfl⟩
    | cons name args =>
      simp only [runCommand, ht.find?_eq_none hleaf]
      exact Group.attempted_foreground shell.setting { program := name, args } host s.machine
  | redirect source mode target =>
    rw [runTree]
    exact Redirect.attempted_run shell.setting source mode target host s.machine
  | pipeline stages =>
    rw [runTree]
    exact Pipeline.attempted_run shell.setting stages host s.machine
  | conditional groups => exact absurd hleaf (Tree.conditional_notMem_leaves t groups)

/-- A contract that does not ask for the failure lets failures be caught and raised. -/
theorem tolerant_external :
    Contract.Tolerant fun s l _ s' => Session.Lift Machine.External s l s' where
  toSequential := .of_isPath (Machine.External.isPath.comap Session.machine)
  caught _ h := h
  raised s _ _ := Machine.External.isPath.nil s.machine
  log s _ _ := .single rfl s.machine

theorem runTree_external (ht : Unhandled t shell.commands) :
    (runTree shell interpret t).Keeps (Session.Lift Machine.External) := fun host =>
  runTree_meets tolerant_external t fun _ hleaf =>
    (runTree_leaf_external hleaf ht).meets host

/-- The table has no say in a tree whose plain commands do not stand in it: all that is done is
    done by programs, those of pipelines and redirects by whatever name, and nothing by a command
    of the shell's own. -/
theorem run_eq_of_no_handler (shell : Shell) (commands₁ commands₂ : Table Handler) (t : Tree)
    (h₁ : Unhandled t commands₁) (h₂ : Unhandled t commands₂) (host : Host) (s : Session) :
    let shell₁ := { shell with commands := commands₁ }
    let shell₂ := { shell with commands := commands₂ }
    let r := run shell₁ t host s
    r = run shell₂ t host s ∧
      s.machine.External r.events r.state.machine ∧
      ∀ leaf ∈ t.leaves, ∀ s,
        let r := run shell₁ leaf host s
        s.machine.External r.events r.state.machine ∧
          Pipeline.attempted r.events <+: leaf.programs ∧
          (r.outcome = .ok () → Pipeline.attempted r.events = leaf.programs) := by
  intro shell₁ shell₂ r
  have h₁ : Unhandled t shell₁.commands := h₁
  have h₂ : Unhandled t shell₂.commands := h₂
  refine ⟨?_, runTree_external h₁ host s, fun leaf hleaf s => ?_⟩
  · have hsetting : shell₁.setting = shell₂.setting := rfl
    have hleaves : ∀ leaf ∈ t.leaves, runTree shell₁ (interpreter shell₁ maxDepth) leaf
        = runTree shell₂ (interpreter shell₂ maxDepth) leaf :=
      fun leaf hleaf => runTree_leaf_congr hsetting hleaf fun _ _ _ hname =>
        ⟨h₁.find?_eq_none hname, h₂.find?_eq_none hname⟩
    exact congrFun (congrFun (runTree_congr t hleaves) host) s
  · exact ⟨runTree_leaf_external hleaf h₁ host s, attempted_runTree_leaf hleaf h₁ s⟩

/-- Programs named like built-in commands, in a conditional inside of a conditional. -/
theorem run_eq_of_no_handler_nested :
    let commands : Table Handler := { entries := [("cd", .script [.execute "kill 1"])] }
    let t : Tree := .conditional
      [[.pipeline [["cd", "/"], ["kill", "1"]], .command "ls" ["ls"]],
        [.conditional [[.redirect "echo x" .truncate "cd"], [.command "ls -l" ["ls", "-l"]]]]]
    let shell : Shell := {}
    let s : Session := { machine := { programs := fun name =>
      if name = "kill" then [.started { status := 3 }] else [.started {}] } }
    let r := run shell t {} s
    Unhandled t builtinCommands ∧ Unhandled t commands ∧
      r = run { shell with commands } t {} s ∧
      s.machine.External r.events r.state.machine ∧
      (∀ leaf ∈ t.leaves, ∀ s,
        let r := run shell leaf {} s
        s.machine.External r.events r.state.machine ∧
          Pipeline.attempted r.events <+: leaf.programs ∧
          (r.outcome = .ok () → Pipeline.attempted r.events = leaf.programs)) ∧
      Pipeline.attempted r.events
        = [["cd", "/"], ["kill", "1"], ["ls"], ["echo", "x"], ["ls", "-l"]] := by
  intro commands t shell s r
  have hunhandled : ∀ commands : Table Handler, "ls" ∉ commands.names →
      Unhandled t commands := by
    intro commands hls text name args hleaf
    simp only [t, Tree.leaves, Tree.leavesOfGroups, Tree.leavesOfGroup, List.cons_append,
      List.nil_append, List.append_nil, List.mem_cons, List.not_mem_nil, reduceCtorEq,
      Tree.command.injEq, List.cons.injEq, false_or, or_false] at hleaf
    rcases hleaf with ⟨-, rfl, -⟩ | ⟨-, rfl, -⟩ <;> exact hls
  have h₁ : Unhandled t builtinCommands := hunhandled _ (by decide)
  have h₂ : Unhandled t commands := hunhandled _ (by decide)
  obtain ⟨hsame, hexternal, hleaves⟩ :=
    run_eq_of_no_handler shell builtinCommands commands t h₁ h₂ {} s
  exact ⟨h₁, h₂, hsame, hexternal, hleaves, by decide +kernel⟩

end Shell

end LineShell
