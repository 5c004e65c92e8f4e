/-
  LineShell.Proofs.Shell.Released

  No end of a pipe and no file outlives the line that it was opened for.

  Descriptors are handed out one after another and never twice (`Numbered`).  What
  a line has been handed out, of descriptors and of files, is given back exactly
  once before the line has been dispatched, whatever fails on the way.
-/

import LineShell.Proofs.Pipeline.Descriptors
import LineShell.Proofs.Pipeline.Order
import LineShell.Proofs.Redirect.Inversion
import LineShell.Proofs.Shell.Plain

namespace LineShell

/-! ## Descriptors are new -/

/-- The descriptors handed out are the next ones, in order. -/
def Numbered (m : Machine) (l : List Event) (m' : Machine) : Prop :=
  ∃ k : Nat, m'.nextDescriptor = m.nextDescriptor + k ∧
    descriptors.acquired l = (List.range k).map fun i : Nat => m.nextDescriptor + (i : Int)

namespace Numbered

variable {m m' : Machine} {l : List Event}

theorem of_none (hl : descriptors.acquired l = [])
    (hm : m'.nextDescriptor = m.nextDescriptor) : Numbered m l m' :=
  ⟨0, by simpa using hm, by simpa using hl⟩

theorem isPath : IsPath Numbered where
  nil m := of_none rfl rfl
  append := by
    rintro m₁ m₂ m₃ l₁ l₂ ⟨k₁, hm₁, hl₁⟩ ⟨k₂, hm₂, hl₂⟩
    -- The second run counts on from where the first has ended.
    refine ⟨k₁ + k₂, ?_, ?_⟩
    · rw [hm₂, hm₁]
      push_cast
      exact Int.add_assoc ..
    · rw [Custody.acquired_append, hl₁, hl₂, List.range_add, List.map_append, List.map_map, hm₁]
      congr 1
      apply List.map_congr_left
      intro i _
      simp [Int.add_assoc]

/-- No descriptor is handed out twice. -/
theorem nodup (h : Numbered m l m') : (descriptors.acquired l).Nodup := by
  obtain ⟨k, -, hl⟩ := h
  rw [hl]
  refine List.Nodup.map (fun i j hij => ?_) List.nodup_range
  have hcast : (i : Int) = (j : Int) := by simpa using hij
  omega

end Numbered

theorem idle_of_tending {e : Event} (h : e.isTending = true) :
    descriptors.Idle e ∧ openFiles.Idle e := by
  cases e <;> first | exact ⟨⟨rfl, rfl, rfl⟩, ⟨rfl, rfl, rfl⟩⟩ | cases h

namespace Group

variable {setting : Setting}

theorem tends_numbered (setting : Setting) :
    Tends setting fun b l b' => Numbered b.machine l b'.machine where
  toIsPath := Numbered.isPath.comap Block.machine
  log _ _ _ := .of_none rfl rfl
  reap i host b := by
    have htending := (tends_isTending setting).reap i host b
    have hspec := reap_spec setting i host b
    generalize reap setting i host b = r at hspec htending
    have hidle : ∀ e ∈ r.events, descriptors.acquires e = [] := fun e he =>
      (idle_of_tending (htending e he)).1.1
    refine .of_none (descriptors.acquired_eq_nil hidle) ?_
    cases hspec with
    | absent => rfl
    | again => rfl
    | ended _ _ _ _ hm _ => exact hm.nextDescriptor
  terminate _ _ := .of_none rfl rfl

theorem starts_numbered (setting : Setting) :
    Starts setting fun b l b' => Numbered b.machine l b'.machine where
  toIsPath := Numbered.isPath.comap Block.machine
  start invocation host b := by
    obtain ⟨hattempt, hm⟩ := (start_spec setting invocation host b).attempt
    refine .of_none (descriptors.acquired_eq_nil ?_) hm.nextDescriptor
    exact hattempt.forall_mem (fun _ => rfl) (fun _ => rfl) (fun _ => rfl) rfl fun _ => rfl
  pipe host b := by
    simp only [Action.inBlock, Action.zoom_apply, Machine.pipe_apply]
    cases host.pipeFailures b.machine.pipeCalls with
    | some f => exact .of_none rfl rfl
    | none => exact ⟨2, rfl, by simp [Custody.acquired, descriptors, List.range_succ]⟩
  close _ _ := .of_none rfl rfl

end Group

/-! ## Everything is given back -/

/-- Every descriptor and every file is held from the time it is acquired on, used only then,
    and given back. -/
def Returned (l : List Event) : Prop :=
  descriptors.run ∅ l = some ∅ ∧ openFiles.run ∅ l = some ∅

namespace Returned

variable {l l₁ l₂ : List Event}

theorem append (h₁ : Returned l₁) (h₂ : Returned l₂) : Returned (l₁ ++ l₂) :=
  ⟨descriptors.run_isPath.append h₁.1 h₂.1, openFiles.run_isPath.append h₁.2 h₂.2⟩

/-- Events that have nothing to do with descriptors or files. -/
theorem of_idle (h : ∀ e ∈ l, descriptors.Idle e ∧ openFiles.Idle e) : Returned l :=
  ⟨descriptors.run_of_idle ∅ fun e he => (h e he).1,
    openFiles.run_of_idle ∅ fun e he => (h e he).2⟩

end Returned

theorem idle_openFiles {e : Event} (h : e.isAttempt = true) :
    openFiles.acquires e = [] ∧ openFiles.releases e = [] := by
  cases e <;> first | exact ⟨rfl, rfl⟩ | cases h

/-- A program in the foreground leaves what is held as it is, if what its streams stand for is
    held. -/
theorem Group.foreground_uses (setting : Setting) (invocation : Invocation) {κ : Type}
    [DecidableEq κ] (c : Custody κ) (held : Finset κ) {thing? : Stream → Option κ}
    (huses : ∀ e : Event, c.uses e = e.streams.filterMap thing?)
    (hidle : ∀ e : Event, e.isAttempt = true → c.acquires e = [] ∧ c.releases e = [])
    (htend : ∀ e : Event, e.isTending = true → c.Idle e)
    (hheld : ∀ k ∈ [invocation.stdin, invocation.stdout, invocation.stderr].filterMap thing?,
      k ∈ held) (host : Host) (m : Machine) :
    c.run held (foreground setting invocation host m).events = some held := by
  obtain ⟨ok, a, tending, hevents, ha, htending⟩ := events_foreground setting invocation host m
  rw [hevents]
  exact c.run_isPath.append (ha.run_uses huses hidle hheld)
    (c.run_of_idle held fun e he => htend e (htending e he))

namespace Shell

variable {setting : Setting}

theorem foreground_returned (program : String) (args : List String) (host : Host) (m : Machine) :
    Returned (Group.foreground setting { program, args } host m).events :=
  ⟨Group.foreground_uses setting _ descriptors ∅ (fun _ => rfl) (fun _ => idle_descriptors)
      (fun _ he => (idle_of_tending he).1) (by simp [Stream.descriptor?]) host m,
    Group.foreground_uses setting _ openFiles ∅ (fun _ => rfl) (fun _ => idle_openFiles)
      (fun _ he => (idle_of_tending he).2) (by simp [Stream.file?]) host m⟩

theorem run_openFile (path : String) (mode : OpenMode) (l : List Event) :
    openFiles.run ∅ (.openFile path mode true :: l) = openFiles.run {path} l := by
  have hstep : openFiles.step ∅ (.openFile path mode true) = some {path} := by
    rw [Custody.step_eq_some_iff]
    refine ⟨?_, ?_⟩
    · simp [Custody.Allows, openFiles, Event.streams]
    · simp [openFiles]
  rw [Custody.run_cons, hstep, Option.bind_some]

theorem run_closeFile (path : String) : openFiles.run {path} [.closeFile path] = some ∅ := by
  have hstep : openFiles.step {path} (.closeFile path) = some ∅ := by
    rw [Custody.step_eq_some_iff]
    refine ⟨?_, ?_⟩
    · simp [Custody.Allows, openFiles, Event.streams]
    · simp [openFiles]
  rw [Custody.run_cons, hstep]
  rfl

theorem redirect_returned (source : String) (mode : OpenMode) (target : String) (host : Host)
    (m : Machine) : Returned (Redirect.run setting source mode target host m).events := by
  have hspec := Redirect.run_spec setting source mode target host m
  generalize Redirect.run setting source mode target host m = r at hspec
  cases hspec with
  | unopened f hl =>
    rcases hl with rfl | rfl
    · exact .of_idle (by simp)
    · exact .of_idle (List.forall_mem_singleton.mpr ⟨⟨rfl, rfl, rfl⟩, ⟨rfl, rfl, rfl⟩⟩)
  | blank =>
    refine ⟨descriptors.run_of_idle ∅ ?_, ?_⟩
    · simp [Custody.Idle, descriptors, Event.streams]
    · rw [run_openFile]
      exact run_closeFile target
  | @program invocation message _ hwords hr =>
    subst hr
    obtain ⟨hstdin, hstdout, hstderr⟩ := Invocation.streams_of_ofWords hwords
    -- The only stream of the program that stands for anything is the file in hand.
    have hdescriptors := Group.foreground_uses setting (Redirect.attach mode target invocation)
      descriptors ∅ (fun _ => rfl) (fun _ => idle_descriptors)
      (fun _ he => (idle_of_tending he).1)
      (by cases mode <;> simp [Redirect.attach, hstdin, hstdout, hstderr, Stream.descriptor?])
      host (Redirect.opened target m)
    have hfiles := Group.foreground_uses setting (Redirect.attach mode target invocation)
      openFiles {target} (fun _ => rfl) (fun _ => idle_openFiles)
      (fun _ he => (idle_of_tending he).2)
      (by cases mode <;> simp [Redirect.attach, hstdin, hstdout, hstderr, Stream.file?])
      host (Redirect.opened target m)
    refine ⟨?_, ?_⟩
    · have hidle : ∀ e ∈ ([.openFile target mode true, .log .redirect message] : List Event),
          descriptors.Idle e := by
        simp [Custody.Idle, descriptors, Event.streams]
      have hclose : descriptors.run ∅ [.closeFile target] = some ∅ :=
        descriptors.run_of_idle ∅ (List.forall_mem_singleton.mpr ⟨rfl, rfl, rfl⟩)
      have hrun := descriptors.run_isPath.append (descriptors.run_of_idle ∅ hidle)
        (descriptors.run_isPath.append hdescriptors hclose)
      exact hrun
    · have hlog : openFiles.run {target} [.log .redirect message] = some {target} :=
        openFiles.run_of_idle {target} (List.forall_mem_singleton.mpr ⟨rfl, rfl, rfl⟩)
      have hrun := openFiles.run_isPath.append hlog
        (openFiles.run_isPath.append hfiles (run_closeFile target))
      rw [run_openFile]
      exact hrun

/-- The streams of a stage are ends of pipes or inherited, so starting stages uses no file. -/
theorem idle_openFiles_of_startTrace {readEnd : Option Descriptor} {n : Descriptor}
    {stages : List Invocation} {ok : Bool} {l : List Event}
    (h : Pipeline.StartTrace setting readEnd n stages ok l)
    (hstderr : ∀ i ∈ stages, i.stderr = .inherited) : ∀ e ∈ l, openFiles.Idle e := by
  have hfile : ∀ stream : Stream, (∀ path, stream ≠ .file path) → stream.file? = none := by
    intro stream hstream
    cases stream with
    | file path => exact absurd rfl (hstream path)
    | _ => rfl
  refine h.forall_mem ?_ ?_ ?_ ?_
  · intro stage hstage stdin stdout ok a hstreams ha
    have hstdin := hfile stdin fun path => (hstreams path).1
    have hstdout := hfile stdout fun path => (hstreams path).2
    have hinherited : stage.stderr.file? = none := by rw [hstderr stage hstage]; rfl
    refine ha.forall_mem (fun _ => ⟨rfl, rfl, rfl⟩) (fun _ => ⟨rfl, rfl, rfl⟩)
      (fun _ => ⟨rfl, rfl, rfl⟩) ⟨rfl, ?_, rfl⟩ fun _ => ⟨rfl, ?_, rfl⟩
    · simp [openFiles, Event.streams, hstdin, hstdout]
    · simp [openFiles, Event.streams, hstdin, hstdout, hinherited]
  · exact fun _ _ => ⟨rfl, rfl, rfl⟩
  · exact ⟨rfl, rfl, rfl⟩
  · exact fun _ => ⟨rfl, rfl, rfl⟩

theorem pipeline_returned (stages : List (List String)) (host : Host) (m : Machine) :
    Returned (Pipeline.run setting stages host m).events := by
  rcases Pipeline.events_run setting stages host m with
    hrun | ⟨invocations, ok, starts, tending, hstages, hevents, hstarts, htending, -⟩
  · rw [hrun]
    exact .of_idle (by simp)
  · obtain ⟨-, hstderr⟩ := Pipeline.of_mapM_ofWords hstages
    have hdescriptors := hstarts.run_descriptors hstderr (by simp)
    have hfiles := openFiles.run_of_idle ∅ (idle_openFiles_of_startTrace hstarts hstderr)
    rw [hevents]
    exact .append ⟨hdescriptors, hfiles⟩ (.of_idle fun e he => idle_of_tending (htending e he))

/-! ## Whole lines -/

theorem foreground_numbered (setting : Setting) (invocation : Invocation) :
    (Group.foreground setting invocation).Keeps Numbered :=
  Group.foreground_keeps (Group.starts_numbered setting) (Group.tends_numbered setting) invocation

theorem pipeline_numbered (stages : List (List String)) :
    (Pipeline.run setting stages).Keeps Numbered :=
  Pipeline.run_keeps (Group.starts_numbered setting) (Group.tends_numbered setting) stages

theorem redirect_numbered (source : String) (mode : OpenMode) (target : String) :
    (Redirect.run setting source mode target).Keeps Numbered := by
  refine Redirect.run_keeps Numbered.isPath ?_ ?_ ?_ ?_ fun _ _ => foreground_numbered setting _
  · exact fun _ => .of_none rfl rfl
  · exact fun _ => .of_none rfl rfl
  · exact fun _ => .of_none rfl rfl
  · exact fun _ _ => .of_none rfl rfl

theorem obeys_returned (shell : Shell) :
    shell.Obeys fun m l m' => Numbered m l m' ∧ Returned l := by
  refine .of_plain ⟨fun m => ⟨Numbered.isPath.nil m, .of_idle (by simp)⟩, ?_⟩ ?_ ?_ ?_ ?_
  · exact fun h₁ h₂ => ⟨Numbered.isPath.append h₁.1 h₂.1, h₁.2.append h₂.2⟩
  · rintro m l m' ⟨hplain, hm⟩
    have hidle : ∀ e ∈ l, descriptors.Idle e ∧ openFiles.Idle e := by
      intro e he
      have hplain := hplain e he
      cases e <;> first | exact ⟨⟨rfl, rfl, rfl⟩, ⟨rfl, rfl, rfl⟩⟩ | cases hplain
    exact ⟨.of_none (descriptors.acquired_eq_nil fun e he => (hidle e he).1.1) hm, .of_idle hidle⟩
  · exact fun program args host m =>
      ⟨foreground_numbered shell.setting { program, args } host m,
        foreground_returned program args host m⟩
  · exact fun source mode target host m =>
      ⟨redirect_numbered source mode target host m, redirect_returned source mode target host m⟩
  · exact fun stages host m =>
      ⟨pipeline_numbered stages host m, pipeline_returned stages host m⟩

end Shell

/-- No end of a pipe and no file is left open, and none is closed twice. -/
structure NothingLeaks (l : List Event) : Prop where
  /-- No descriptor is handed out twice. -/
  handedOut : (descriptors.acquired l).Nodup
  /-- The descriptors that are closed are those handed out, each of them once. -/
  closed : (descriptors.released l).Perm (descriptors.acquired l)
  /-- Each file is closed as often as it has been opened. -/
  files : (openFiles.released l).Perm (openFiles.acquired l)
  /-- Nothing is closed before it is there to be closed. -/
  order : ∀ l₁, l₁ <+: l →
    (∀ fd, (descriptors.released l₁).count fd ≤ (descriptors.acquired l₁).count fd) ∧
    ∀ path, (openFiles.released l₁).count path ≤ (openFiles.acquired l₁).count path
  /-- A start is given ends of pipes that have not been closed and files that are open. -/
  streams : ∀ l₁ e l₂, l = l₁ ++ e :: l₂ →
    (∀ fd, .descriptor fd ∈ e.streams →
      fd ∈ descriptors.acquired l₁ ∧ fd ∉ descriptors.released l₁) ∧
    ∀ path, .file path ∈ e.streams →
      (openFiles.acquired l₁).count path = (openFiles.released l₁).count path + 1

theorem Returned.nothingLeaks {l : List Event} (h : Returned l)
    (hnodup : (descriptors.acquired l).Nodup) : NothingLeaks l := by
  obtain ⟨hdescriptors, hfiles⟩ := h
  refine ⟨hnodup, ?_, ?_, fun l₁ hl₁ => ⟨fun fd => ?_, fun path => ?_⟩,
    fun l₁ e l₂ hl => ⟨fun fd hfd => ?_, fun path hpath => ?_⟩⟩
  · exact List.perm_iff_count.mpr (Custody.count_released hdescriptors)
  · exact List.perm_iff_count.mpr (Custody.count_released hfiles)
  · exact (Custody.count_prefix hdescriptors hl₁ fd).1
  · exact (Custody.count_prefix hfiles hl₁ path).1
  · have huses : fd ∈ descriptors.uses e ++ descriptors.releases e :=
      List.mem_append_left _ (List.mem_filterMap.mpr ⟨_, hfd, rfl⟩)
    have hcount := Custody.count_of_mem hdescriptors hl huses
    -- It has been handed out once at most, so it cannot have been given back.
    have honce : (descriptors.acquired l₁).count fd ≤ 1 := by
      rw [hl, Custody.acquired_append] at hnodup
      exact List.nodup_iff_count_le_one.mp hnodup.of_append_left fd
    refine ⟨List.count_pos_iff.mp (by omega), fun hmem => ?_⟩
    have hpos := List.count_pos_iff.mpr hmem
    omega
  · have huses : path ∈ openFiles.uses e ++ openFiles.releases e :=
      List.mem_append_left _ (List.mem_filterMap.mpr ⟨_, hpath, rfl⟩)
    exact Custody.count_of_mem hfiles hl huses

/-- A program in the foreground closes no file. -/
theorem Group.closeFile_notMem_foreground (setting : Setting) (invocation : Invocation)
    (host : Host) (m : Machine) (path : String) :
    Event.closeFile path ∉ (foreground setting invocation host m).events := by
  obtain ⟨ok, a, tending, hevents, ha, htending⟩ := events_foreground setting invocation host m
  rw [hevents, List.mem_append, not_or]
  refine ⟨fun hmem => ?_, fun hmem => ?_⟩
  · have hne : ∀ e ∈ a, e ≠ .closeFile path :=
      ha.forall_mem (by simp) (by simp) (by simp) (by simp) (by simp)
    exact hne _ hmem rfl
  · have hfalse := htending _ hmem
    cases hfalse

/-- The file of a redirected command is closed when everything else is over. -/
theorem Redirect.closeFile_last (setting : Setting) (source : String) (mode : OpenMode)
    (target : String) (host : Host) (m : Machine) {l₁ l₂ : List Event} {path : String}
    (hl : (Redirect.run setting source mode target host m).events
      = l₁ ++ .closeFile path :: l₂) : l₂ = [] := by
  have hlast : ∀ block : List Event, Event.closeFile path ∉ block →
      block ++ [.closeFile target] = l₁ ++ .closeFile path :: l₂ → l₂ = [] := by
    intro block hblock heq
    obtain ⟨middle, -, hrest⟩ := exists_eq_append_of_notMem block hblock heq
    cases middle with
    | nil =>
      injection hrest with _ hrest
      exact hrest.symm
    | cons e middle => simp at hrest
  have hspec := Redirect.run_spec setting source mode target host m
  generalize Redirect.run setting source mode target host m = r at hspec hl
  cases hspec with
  | unopened f hnone =>
    have hmem : Event.closeFile path ∈ l₁ ++ Event.closeFile path :: l₂ := by simp
    rw [← hl] at hmem
    rcases hnone with rfl | rfl <;> simp at hmem
  | blank => exact hlast [.openFile target mode true] (by simp) hl
  | @program invocation message _ hwords hr =>
    subst hr
    have hforeground := Group.closeFile_notMem_foreground setting
      (Redirect.attach mode target invocation) host (Redirect.opened target m) path
    refine hlast (.openFile target mode true :: .log .redirect message ::
      (Group.foreground setting (Redirect.attach mode target invocation) host
        (Redirect.opened target m)).events) ?_ hl
    simpa using hforeground

/-- Whatever a dispatched line does and however it ends, no end of a pipe and no file is left
    open; each pipeline closes the ends of its pipes in order, and each redirected command its
    file last. -/
theorem Shell.execute_leaks_nothing (shell : Shell) (line : String) (host : Host) (s : Session) :
    NothingLeaks (shell.execute line host s).events ∧
      (∀ stages m, Pipeline.Orderly stages (Pipeline.run shell.setting stages host m)) ∧
      ∀ source mode target m l₁ path l₂,
        (Redirect.run shell.setting source mode target host m).events
          = l₁ ++ .closeFile path :: l₂ → l₂ = [] := by
  obtain ⟨hnumbered, hreturned⟩ := (Shell.obeys_returned shell).execute line host s
  refine ⟨hreturned.nothingLeaks hnumbered.nodup, fun stages m => ?_, ?_⟩
  · exact Pipeline.run_orderly shell.setting stages host m
  · exact fun source mode target m l₁ path l₂ hl =>
      Redirect.closeFile_last shell.setting source mode target host m hl

end LineShell
