/-
  LineShell.Proofs.Shell.Groups

  Which processes are of one group.

  The events of a dispatched line do not name the groups, but they tell them apart.
  A program by itself and the first stage of a pipeline do not read from a pipe, and
  every later stage does.  So a start that does not read from a pipe begins a group,
  and starts all of which but the first read from a pipe are of one group (`OneGroup`).

  The events of a line fall into those of its groups, and the processes of each of
  them have distinct numbers exactly if those of every part of the events have that is
  one group (`execute_groups`).
-/

import LineShell.Proofs.Event.Custody
import LineShell.Proofs.Pipeline.Trace
import LineShell.Proofs.Redirect.Inversion
import LineShell.Proofs.Shell.Plain
import Mathlib.Data.List.Flatten
import Mathlib.Data.List.Infix

namespace LineShell

/-- Whether the event is the start of a process. -/
def Event.isStart : Event → Bool
  | .spawn .. => true
  | _ => false

/-- Whether the event is the start of a process that reads from a pipe. -/
def Event.isFed : Event → Bool
  | .spawn _ _ (.descriptor _) _ _ _ => true
  | _ => false

/-- All starts but the first are of processes that read from a pipe, and so belong to the
    group of the one before. -/
def OneGroup (l : List Event) : Prop := ∀ e ∈ (l.filter Event.isStart).tail, e.isFed = true

/-- The processes of one group have distinct numbers. -/
def DistinctInGroups (l : List Event) : Prop :=
  ∀ w, w <:+: l → OneGroup w → (processes.acquired w).Nodup

instance (l : List Event) : Decidable (OneGroup l) := inferInstanceAs (Decidable (∀ _ ∈ _, _))

instance (l : List Event) : Decidable (DistinctInGroups l) :=
  decidable_of_iff (∀ t ∈ l.tails, ∀ w ∈ t.inits, OneGroup w → (processes.acquired w).Nodup) <| by
    constructor
    · intro h w hw
      obtain ⟨t, hwt, htl⟩ := List.infix_iff_prefix_suffix.mp hw
      exact h t ((List.mem_tails _ _).mpr htl) w ((List.mem_inits _ _).mpr hwt)
    · intro h t ht w hw
      exact h w (List.infix_iff_prefix_suffix.mpr
        ⟨t, (List.mem_inits _ _).mp hw, (List.mem_tails _ _).mp ht⟩)

theorem DistinctInGroups.of_isInfix {l w : List Event} (h : DistinctInGroups l)
    (hw : w <:+: l) : DistinctInGroups w := fun v hv => h v (hv.trans hw)

/-! ## The starts of a group -/

theorem filter_isStart_of_tending {l : List Event} (h : ∀ e ∈ l, e.isTending = true) :
    l.filter Event.isStart = [] := by
  rw [List.filter_eq_nil_iff]
  intro e he hstart
  have htending := h e he
  cases e <;> simp_all [Event.isStart, Event.isTending]

theorem filter_isStart_closes (fd : Option Descriptor) :
    (Pipeline.closes fd).filter Event.isStart = [] := by
  cases fd <;> rfl

/-- An attempt that succeeds has started a process with the streams it was given, and one that
    fails may have. -/
theorem Group.Attempt.starts {setting : Setting} {invocation : Invocation} {ok : Bool}
    {a : List Event} (h : Group.Attempt setting invocation ok a) :
    (ok = false ∧ a.filter Event.isStart = []) ∨ ∃ pid, a.filter Event.isStart =
      [.spawn pid invocation.argv invocation.stdin invocation.stdout invocation.stderr
        setting.environment] := by
  have hflushed : ∀ m : Machine, m.flushed.filter Event.isStart = [] := by
    intro m
    rw [List.filter_eq_nil_iff]
    intro e he
    obtain ⟨text, rfl⟩ := Machine.mem_flushed he
    exact Bool.false_ne_true
  have hnotices : ∀ event, (setting.notices event).filter Event.isStart = [] := by
    intro event
    rw [List.filter_eq_nil_iff]
    intro e he
    rw [Setting.mem_notices he]
    exact Bool.false_ne_true
  cases h with
  | refused m => exact .inl ⟨rfl, hflushed m⟩
  | failed m =>
    refine .inl ⟨rfl, ?_⟩
    rw [List.filter_append, hflushed m]
    rfl
  | running _ m pid message =>
    refine .inr ⟨pid, ?_⟩
    rw [List.filter_append, hflushed, List.nil_append, List.filter_cons_of_pos rfl,
      List.filter_cons_of_neg (by simp [Event.isStart]), hnotices]

theorem Group.Attempt.oneGroup {setting : Setting} {invocation : Invocation} {ok : Bool}
    {a : List Event} (h : Group.Attempt setting invocation ok a) : OneGroup a := by
  unfold OneGroup
  rcases h.starts with ⟨-, hnone⟩ | ⟨_, hone⟩
  · simp [hnone]
  · simp [hone]

/-- Whether the starts of an attempt read from a pipe depends on the stream they are given. -/
theorem Group.Attempt.isFed {setting : Setting} {invocation : Invocation} {ok : Bool}
    {a : List Event} (h : Group.Attempt setting invocation ok a) :
    ∀ e ∈ a.filter Event.isStart, e.isFed = invocation.stdin.descriptor?.isSome := by
  intro e he
  rcases h.starts with ⟨-, hnone⟩ | ⟨_, hone⟩
  · rw [hnone] at he
    cases he
  · rw [hone] at he
    cases List.mem_singleton.mp he
    cases invocation.stdin <;> rfl

namespace Pipeline.StartTrace

variable {setting : Setting} {readEnd : Option Descriptor} {n : Descriptor}
  {stages : List Invocation} {ok : Bool} {l : List Event}

theorem filter_isStart_stage (readEnd : Option Descriptor) (n : Descriptor) (a l : List Event) :
    (.pipe n (n + 1) :: (a ++ (closes readEnd ++ .close (n + 1) :: l))).filter Event.isStart
      = a.filter Event.isStart ++ l.filter Event.isStart := by
  simp [Event.isStart, filter_isStart_closes]

/-- The first start reads from a pipe exactly if the first stage is meant to, and all later
    starts do. -/
theorem starts (h : StartTrace setting readEnd n stages ok l) :
    (∀ e ∈ (l.filter Event.isStart).head?, e.isFed = readEnd.isSome) ∧ OneGroup l := by
  have hnone : ∀ {l : List Event} {readEnd : Option Descriptor}, l.filter Event.isStart = [] →
      (∀ e ∈ (l.filter Event.isStart).head?, e.isFed = readEnd.isSome) ∧ OneGroup l := by
    intro l readEnd hl
    rw [OneGroup, hl]
    exact ⟨by simp, by simp⟩
  have hattempt : ∀ {stage : Invocation} {readEnd : Option Descriptor} {stdout : Stream}
      {ok : Bool} {a l : List Event},
      Group.Attempt setting { stage with stdin := streamOf readEnd, stdout := stdout } ok a →
      l.filter Event.isStart = a.filter Event.isStart →
      (∀ e ∈ (l.filter Event.isStart).head?, e.isFed = readEnd.isSome) ∧ OneGroup l := by
    intro stage readEnd stdout ok a l ha hl
    rw [OneGroup, hl]
    refine ⟨fun e he => ?_, ha.oneGroup⟩
    rw [ha.isFed e (List.mem_of_mem_head? he)]
    cases readEnd <;> rfl
  induction h with
  | done => exact hnone (filter_isStart_closes _)
  | noPipe => exact hnone (filter_isStart_closes _)
  | last ha =>
    apply hattempt ha
    rw [List.filter_append, filter_isStart_closes, List.append_nil]
  | stopped _ ha =>
    apply hattempt ha
    rw [filter_isStart_stage]
    exact List.append_nil _
  | @started readEnd n stage rest a l ok _ ha _ ih =>
    -- This stage has been started, so all that the rest starts comes behind it.
    obtain ⟨⟨⟩, -⟩ | ⟨_, hone⟩ := ha.starts
    obtain ⟨hhead, htail⟩ := ih
    rw [OneGroup, filter_isStart_stage, hone, List.singleton_append]
    refine ⟨?_, fun e he => ?_⟩
    · rintro e ⟨⟩
      cases readEnd <;> rfl
    · rw [OneGroup] at htail
      rw [List.tail_cons] at he
      cases hstarts : l.filter Event.isStart with
      | nil =>
        rw [hstarts] at he
        cases he
      | cons first later =>
        rw [hstarts] at he hhead htail
        rcases List.mem_cons.mp he with rfl | he
        · exact hhead e rfl
        · exact htail e he

end Pipeline.StartTrace

theorem Group.foreground_oneGroup (setting : Setting) (invocation : Invocation) (host : Host)
    (m : Machine) : OneGroup (foreground setting invocation host m).events := by
  obtain ⟨ok, a, tending, hevents, ha, htending⟩ := events_foreground setting invocation host m
  rw [hevents, OneGroup, List.filter_append, filter_isStart_of_tending htending, List.append_nil]
  exact ha.oneGroup

theorem Pipeline.run_oneGroup (setting : Setting) (stages : List (List String)) (host : Host)
    (m : Machine) : OneGroup (run setting stages host m).events := by
  rcases events_run setting stages host m with
    hrun | ⟨invocations, ok, starts, tending, -, hevents, hstarts, htending, -⟩
  · rw [hrun]
    rintro e ⟨⟩
  · rw [hevents, OneGroup, List.filter_append, filter_isStart_of_tending htending,
      List.append_nil]
    exact hstarts.starts.2

/-! ## The groups of a line -/

/-- The events of a program by itself, of a pipeline, or of what starts no process. -/
inductive OfGroup (setting : Setting) : List Event → Prop
  | idle {l : List Event} (h : l.filter Event.isStart = []) : OfGroup setting l
  | foreground (invocation : Invocation) (h : invocation.stdin.descriptor? = none) (host : Host)
      (m : Machine) : OfGroup setting (Group.foreground setting invocation host m).events
  | pipeline (stages : List (List String)) (host : Host) (m : Machine) :
      OfGroup setting (Pipeline.run setting stages host m).events

/-- The first start of a group does not read from a pipe, and all others do. -/
theorem OfGroup.starts {setting : Setting} {l : List Event} (h : OfGroup setting l) :
    (∀ e ∈ (l.filter Event.isStart).head?, e.isFed = false) ∧ OneGroup l := by
  cases h with
  | idle h =>
    rw [OneGroup, h]
    exact ⟨by simp, by simp⟩
  | foreground invocation hstdin host m =>
    refine ⟨?_, Group.foreground_oneGroup setting invocation host m⟩
    obtain ⟨ok, a, tending, hevents, ha, htending⟩ :=
      Group.events_foreground setting invocation host m
    rw [hevents, List.filter_append, filter_isStart_of_tending htending, List.append_nil]
    intro e he
    rw [ha.isFed e (List.mem_of_mem_head? he), hstdin]
    rfl
  | pipeline stages host m =>
    refine ⟨?_, Pipeline.run_oneGroup setting stages host m⟩
    rcases Pipeline.events_run setting stages host m with
      hrun | ⟨invocations, ok, starts, tending, -, hevents, hstarts, htending, -⟩
    · rw [hrun]
      rintro e ⟨⟩
    · rw [hevents, List.filter_append, filter_isStart_of_tending htending, List.append_nil]
      exact hstarts.starts.1

/-- A part of a list of groups is a part of one of them, if of its elements all but the first
    have a property that the first element of no group has. -/
theorem exists_isInfix_of_isInfix_flatten {p : Event → Bool} {groups : List (List Event)}
    {w : List Event} (hhead : ∀ g ∈ groups, ∀ e ∈ g.head?, p e = false)
    (hw : w <:+: groups.flatten) (htail : ∀ e ∈ w.tail, p e = true) (hne : w ≠ []) :
    ∃ g ∈ groups, w <:+: g := by
  induction groups with
  | nil => exact absurd (List.eq_nil_of_infix_nil hw) hne
  | cons g rest ih =>
    rw [List.flatten_cons, List.infix_append_iff_ne_nil] at hw
    rcases hw with hw | hw | ⟨w₁, w₂, hw₁, hw₂, rfl, -, hw⟩
    · exact ⟨g, List.mem_cons_self, hw⟩
    · obtain ⟨g', hg', hw'⟩ := ih (fun g' hg' => hhead g' (List.mem_cons_of_mem _ hg')) hw
      exact ⟨g', List.mem_cons_of_mem _ hg', hw'⟩
    · -- The part would run over the first element of a later group.
      obtain ⟨_, w₁, rfl⟩ := List.exists_cons_of_ne_nil hw₁
      obtain ⟨e, w₂, rfl⟩ := List.exists_cons_of_ne_nil hw₂
      have hfirst : rest.flatten.head? = some e := by
        obtain ⟨later, hlater⟩ := hw
        rw [← hlater]
        rfl
      rw [List.head?_flatten] at hfirst
      obtain ⟨g', hg', he⟩ := List.exists_of_findSome?_eq_some hfirst
      have hno := hhead g' (List.mem_cons_of_mem _ hg') e he
      have hyes := htail e (by simp)
      rw [hno] at hyes
      cases hyes

/-- Where events fall into those of groups, the parts that are one group have distinct numbers
    exactly if the groups have. -/
theorem distinctInGroups_flatten_iff {setting : Setting} {groups : List (List Event)}
    (hgroups : ∀ g ∈ groups, OfGroup setting g) :
    DistinctInGroups groups.flatten ↔ ∀ g ∈ groups, (processes.acquired g).Nodup := by
  have hstarts : ∀ l : List Event,
      processes.acquired (l.filter Event.isStart) = processes.acquired l := by
    intro l
    induction l with
    | nil => rfl
    | cons e l ih => cases e <;> first | exact ih | exact congrArg (_ :: ·) ih
  constructor
  · intro h g hg
    exact h g (List.infix_of_mem_flatten hg) (hgroups g hg).starts.2
  · intro h w hw hone
    rw [← hstarts w]
    by_cases hne : w.filter Event.isStart = []
    · rw [hne]
      exact List.nodup_nil
    · have hin := hw.filter Event.isStart
      rw [List.filter_flatten] at hin
      obtain ⟨_, hmem, hin⟩ := exists_isInfix_of_isInfix_flatten (p := Event.isFed) (by
        intro l hl
        obtain ⟨g, hg, rfl⟩ := List.mem_map.mp hl
        exact (hgroups g hg).starts.1) hin hone hne
      obtain ⟨g, hg, rfl⟩ := List.mem_map.mp hmem
      have hsub : (processes.acquired (w.filter Event.isStart)).Sublist
          (processes.acquired (g.filter Event.isStart)) := hin.sublist.flatMap _
      rw [hstarts g] at hsub
      exact (h g hg).sublist hsub

/-- Events that fall into those of groups. -/
def InGroups (setting : Setting) (l : List Event) : Prop :=
  ∃ groups : List (List Event), l = groups.flatten ∧ ∀ g ∈ groups, OfGroup setting g

namespace InGroups

variable {setting : Setting}

theorem single {l : List Event} (h : OfGroup setting l) : InGroups setting l :=
  ⟨[l], by simp, by simpa using h⟩

theorem isPath : IsPath fun (_ : Machine) l (_ : Machine) => InGroups setting l where
  nil _ := ⟨[], rfl, by simp⟩
  append := by
    rintro _ _ _ _ _ ⟨groups₁, rfl, h₁⟩ ⟨groups₂, rfl, h₂⟩
    refine ⟨groups₁ ++ groups₂, List.flatten_append.symm, fun g hg => ?_⟩
    rcases List.mem_append.mp hg with hg | hg
    · exact h₁ g hg
    · exact h₂ g hg

end InGroups

namespace Shell

theorem obeys_inGroups (shell : Shell) : shell.Obeys fun _ l _ => InGroups shell.setting l := by
  refine .of_plain InGroups.isPath ?_ ?_ ?_ ?_
  · rintro m l m' ⟨hplain, -⟩
    refine .single (.idle (List.filter_eq_nil_iff.mpr fun e he hstart => ?_))
    have hplain := hplain e he
    cases e <;> simp_all [Event.isStart, Event.isPlain]
  · exact fun program args host m => .single (.foreground { program, args } rfl host m)
  · intro source mode target
    refine Redirect.run_keeps InGroups.isPath ?_ ?_ ?_ ?_ fun invocation hwords host m => ?_
    · exact fun _ => .single (.idle rfl)
    · exact fun _ => .single (.idle rfl)
    · exact fun _ => .single (.idle rfl)
    · exact fun _ _ => .single (.idle rfl)
    · obtain ⟨hstdin, -⟩ := Invocation.streams_of_ofWords hwords
      refine .single (.foreground (Redirect.attach mode target invocation) ?_ host m)
      cases mode <;> simp [Redirect.attach, hstdin, Stream.descriptor?]
  · exact fun stages host m => .single (.pipeline stages host m)

/-- The events of a dispatched line fall into those of its groups, and whether the processes of
    one group have distinct numbers is a matter of each of these. -/
theorem execute_groups (shell : Shell) (line : String) (host : Host) (s : Session) :
    ∃ groups : List (List Event), (shell.execute line host s).events = groups.flatten ∧
      (∀ g ∈ groups, OfGroup shell.setting g) ∧
      (DistinctInGroups (shell.execute line host s).events ↔
        ∀ g ∈ groups, (processes.acquired g).Nodup) := by
  obtain ⟨groups, hevents, hgroups⟩ := (obeys_inGroups shell).execute line host s
  refine ⟨groups, hevents, hgroups, ?_⟩
  rw [hevents]
  exact distinctInGroups_flatten_iff hgroups

end Shell

end LineShell
