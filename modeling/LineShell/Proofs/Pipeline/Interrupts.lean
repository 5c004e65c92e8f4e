/-
  LineShell.Proofs.Pipeline.Interrupts

  What becomes of an interrupt that a group of processes is waiting through.

  An interrupted wait is repeated until the process has ended.  Then the interrupt
  comes out, and nothing is started after it (`EndsOnInterrupt`): this holds of
  every step in the block of a group, and of a process in the foreground.  Of a
  pipeline it holds as well, except for the waits of leaving its group after the
  block has failed in another way (`run_heeding`): that failure comes out then, and
  the interrupt is lost.
-/

import LineShell.Proofs.Action.Meets
import LineShell.Proofs.Group.Silent
import LineShell.Proofs.Shell.Groups

namespace LineShell

/-- Every interrupted wait ends the run: the interrupt comes out, and nothing is started any
    more. -/
def EndsOnInterrupt (l : List Event) (failure? : Option Failure) : Prop :=
  ∀ before pid after, l = before ++ .wait pid none :: after →
    (∃ message, failure? = some (.interrupt message)) ∧ ∀ e ∈ after, e.isStart = false

/-- No wait is interrupted. -/
def Uninterrupted (l : List Event) : Prop := ∀ e ∈ l, ∀ pid, e ≠ .wait pid none

theorem Uninterrupted.nil : Uninterrupted [] := by
  intro e he
  cases he

theorem Uninterrupted.single {e : Event} (he : ∀ pid, e ≠ .wait pid none) : Uninterrupted [e] :=
  List.forall_mem_singleton.mpr he

/-- Where an event of two runs put together lies. -/
theorem eq_append_cons_of_append {l₁ l₂ before after : List Event} {e : Event}
    (h : l₁ ++ l₂ = before ++ e :: after) :
    (∃ rest, l₁ = before ++ e :: rest ∧ after = rest ++ l₂) ∨
      ∃ rest, before = l₁ ++ rest ∧ l₂ = rest ++ e :: after := by
  rcases List.append_eq_append_iff.mp h with ⟨rest, hbefore, hl₂⟩ | ⟨rest, hl₁, hafter⟩
  · exact .inr ⟨rest, hbefore, hl₂⟩
  · cases rest with
    | nil => exact .inr ⟨[], by simpa using hl₁.symm, hafter.symm⟩
    | cons e' rest =>
      rw [List.cons_append, List.cons.injEq] at hafter
      obtain ⟨rfl, rfl⟩ := hafter
      exact .inl ⟨rest, hl₁, rfl⟩

namespace EndsOnInterrupt

variable {l l₁ l₂ : List Event} {failure? : Option Failure}

theorem of_uninterrupted (h : Uninterrupted l) (failure? : Option Failure) :
    EndsOnInterrupt l failure? := by
  rintro before pid after rfl
  exact absurd rfl (h (.wait pid none) (by simp) pid)

/-- Without an interrupt at the end there has been none. -/
theorem uninterrupted (h : EndsOnInterrupt l failure?)
    (hfailure : ∀ message, failure? ≠ some (.interrupt message)) : Uninterrupted l := by
  rintro e he pid rfl
  obtain ⟨before, after, hl⟩ := List.append_of_mem he
  obtain ⟨⟨message, hmessage⟩, -⟩ := h before pid after hl
  exact hfailure message hmessage

theorem append (h₁ : EndsOnInterrupt l₁ none) (h₂ : EndsOnInterrupt l₂ failure?) :
    EndsOnInterrupt (l₁ ++ l₂) failure? := by
  intro before pid after hl
  rcases eq_append_cons_of_append hl with ⟨rest, hl₁, -⟩ | ⟨rest, -, hl₂⟩
  · exact absurd rfl (h₁.uninterrupted (by simp) (.wait pid none) (by simp [hl₁]) pid)
  · exact h₂ rest pid after hl₂

/-- Tending starts nothing. -/
theorem of_tending (hl : ∀ e ∈ l, e.isTending = true)
    (h : ∀ pid, .wait pid none ∈ l → ∃ message, failure? = some (.interrupt message)) :
    EndsOnInterrupt l failure? := by
  rintro before pid after rfl
  refine ⟨h pid (by simp), fun e he => ?_⟩
  have htending := hl e (by simp [he])
  cases e <;> first | rfl | cases htending

/-- After an interrupt has come out, tending makes no difference. -/
theorem append_tending (h : EndsOnInterrupt l₁ failure?) (hl₂ : ∀ e ∈ l₂, e.isTending = true)
    (hfailure : ∃ message, failure? = some (.interrupt message)) :
    EndsOnInterrupt (l₁ ++ l₂) failure? := by
  intro before pid after hl
  have hquiet : ∀ e ∈ l₂, e.isStart = false := by
    intro e he
    have htending := hl₂ e he
    cases e <;> first | rfl | cases htending
  rcases eq_append_cons_of_append hl with ⟨rest, hl₁, rfl⟩ | ⟨rest, -, hl₂⟩
  · obtain ⟨hmessage, hrest⟩ := h before pid rest hl₁
    exact ⟨hmessage, List.forall_mem_append.mpr ⟨hrest, hquiet⟩⟩
  · exact ⟨hfailure, fun e he => hquiet e (by simp [hl₂, he])⟩

end EndsOnInterrupt

/-- The contract that every interrupted wait ends the run. -/
def Heeding (σ : Type) : Contract σ := fun _ l failure? _ => EndsOnInterrupt l failure?

theorem Heeding.sequential (σ : Type) : (Heeding σ).Sequential where
  nil _ := .of_uninterrupted .nil none
  append := .append

theorem Heeding.fail {σ α : Type} (host : Host) (f : Failure) :
    (Action.fail f : Action σ α).Meets host (Heeding σ) :=
  fun _ => EndsOnInterrupt.of_uninterrupted .nil (some f)

theorem Heeding.of_uninterrupted {σ α : Type} {x : Action σ α}
    (hx : x.Keeps fun _ l _ => Uninterrupted l) (host : Host) : x.Meets host (Heeding σ) :=
  fun s => EndsOnInterrupt.of_uninterrupted (hx host s) _

/-! ## In the block of a group -/

namespace Group

variable {setting : Setting} {host : Host}

theorem starts_uninterrupted (setting : Setting) :
    Starts setting fun _ l _ => Uninterrupted l where
  toIsPath := .forall_mem _
  start invocation host b := by
    obtain ⟨hattempt, -⟩ := (start_spec setting invocation host b).attempt
    exact hattempt.forall_mem (fun _ _ => nofun) (fun _ _ => nofun) (fun _ _ => nofun)
      (fun _ => nofun) fun _ _ => nofun
  pipe host b := by
    simp only [Action.inBlock, Action.zoom_apply, Machine.pipe_apply]
    split <;> exact .single fun _ => nofun
  close _ _ := .single fun _ => nofun

/-- A member that ends with its status has been waited for without an interrupt. -/
theorem uninterrupted_reap {pid status : Int} {message : String} {event : ProcessEvent} :
    Uninterrupted (Process.waits pid status 0 ++
      .log .process message :: setting.notices event) := by
  rintro e he pid' rfl
  rcases List.mem_append.mp he with hwait | hrest
  · simp [Process.waits] at hwait
  · rcases List.mem_cons.mp hrest with hlog | hnotice
    · cases hlog
    · cases Setting.mem_notices hnotice

theorem reap_heeding (host : Host) (hsilent : setting.Silent) (i : Nat) :
    (reap setting i).Meets host (Heeding Block) := by
  intro b
  have htending := (tends_isTending setting).reap i host b
  have hspec := reap_spec setting i host b
  generalize reap setting i host b = r at hspec htending
  cases hspec with
  | absent => exact (Heeding.fail host outOfRange : (Action.fail _ : Action Block Unit).Meets _ _) b
  | again => exact (Heeding.sequential Block).nil b
  | @ended p _ outcome _ _ _ _ houtcome hcollected =>
    cases outcome with
    | ok status? =>
      obtain ⟨-, hinterrupts⟩ := hcollected status? rfl
      rw [hinterrupts]
      exact EndsOnInterrupt.of_uninterrupted uninterrupted_reap _
    | error f =>
      have hf : f = .interrupt "" := (houtcome f rfl).resolve_right hsilent.not_answers
      exact EndsOnInterrupt.of_tending htending fun _ _ => ⟨"", congrArg some hf⟩

theorem wait_heeding (host : Host) (hsilent : setting.Silent) (i : Nat) :
    (wait setting i).Meets host (Heeding Block) := by
  refine .bind (Heeding.sequential Block) (reap_heeding host hsilent i) fun status? => ?_
  split
  · exact .pure (Heeding.sequential Block) ()
  · refine .bind (Heeding.sequential Block) (.get (Heeding.sequential Block)) fun b => ?_
    split <;> exact Heeding.fail host _

/-! ## Leaving -/

/-- What has been found while members were released: interrupts, and one if a wait was
    interrupted. -/
structure Noted (l : List Event) (found : Option Failure) : Prop where
  interrupt : ∀ f, found = some f → ∃ message, f = .interrupt message
  found : ∀ pid, .wait pid none ∈ l → found ≠ none

theorem Noted.none_of_uninterrupted {l : List Event} (h : Uninterrupted l) : Noted l none where
  interrupt _ := nofun
  found pid hpid := absurd rfl (h _ hpid pid)

theorem settle_noted (host : Host) (hsilent : setting.Silent) {b : Block} {i : Nat} {p : Process}
    (hp : b.member? i = some p) (hlive : p.pid ∉ b.group.reaped) :
    ∃ found, (settle setting i host b).outcome = .ok found ∧
      Noted (settle setting i host b).events found := by
  obtain ⟨outcome, m, message, -, hreap, houtcome⟩ :=
    reap_of_silent host hsilent hp hlive
  simp only [settle, Action.bind_apply, Action.attempt_apply, Result.andThen_ok, hreap]
  rcases houtcome with ⟨rfl, hinterrupts⟩ | rfl
  · refine ⟨none, rfl, ?_⟩
    rw [hinterrupts]
    simp only [Action.pure_apply, Result.after_mk, List.append_nil]
    exact .none_of_uninterrupted uninterrupted_reap
  · refine ⟨some (.interrupt ""), rfl, ?_, fun _ _ => Option.some_ne_none _⟩
    rintro _ ⟨⟩
    exact ⟨"", rfl⟩

theorem release_noted (host : Host) (hsilent : setting.Silent) (stopping : Bool) (i : Nat)
    (b : Block) :
    ∃ found, (release setting stopping i host b).outcome = .ok found ∧
      Noted (release setting stopping i host b).events found := by
  have hspec := release_spec setting stopping i host b
  generalize release setting stopping i host b = r at hspec
  cases hspec with
  | absent => exact ⟨none, rfl, .none_of_uninterrupted .nil⟩
  | again => exact ⟨none, rfl, .none_of_uninterrupted .nil⟩
  | waited hp hlive => exact settle_noted host hsilent hp hlive
  | @stopped p _ hp hlive _ =>
    have hterminated := Block.member?_modifyMember b i Process.terminated
    rw [hp] at hterminated
    obtain ⟨found, hfound, hnoted⟩ := settle_noted host hsilent hterminated hlive
    refine ⟨found, hfound, hnoted.interrupt, fun pid hpid => hnoted.found pid ?_⟩
    simpa using hpid

/-- An interrupt that has been found is not forgotten, and none is overlooked. -/
theorem releaseAll_noted (host : Host) (hsilent : setting.Silent) (positions : List Nat)
    (stopping : Bool) (interrupt : Option Failure)
    (hinterrupt : ∀ f, interrupt = some f → ∃ message, f = .interrupt message) (b : Block) :
    ∃ found, (releaseAll setting stopping interrupt positions host b).outcome = .ok found ∧
      Noted (releaseAll setting stopping interrupt positions host b).events found ∧
      (interrupt ≠ none → found ≠ none) := by
  induction positions generalizing stopping interrupt b with
  | nil => exact ⟨interrupt, rfl, ⟨hinterrupt, fun _ h => absurd h List.not_mem_nil⟩, id⟩
  | cons i rest ih =>
    obtain ⟨first, hfirst, hnoted⟩ := release_noted host hsilent stopping i b
    rw [releaseAll, Action.bind_apply]
    generalize release setting stopping i host b = r at hfirst hnoted
    obtain ⟨outcome, b', l⟩ := r
    cases hfirst
    cases first with
    | none =>
      -- Nothing is found, so nothing was there to be found in this release.
      obtain ⟨found, hfound, hrest, hkept⟩ := ih stopping interrupt hinterrupt b'
      refine ⟨found, hfound, ⟨hrest.interrupt, fun pid hpid => ?_⟩, hkept⟩
      rcases List.mem_append.mp hpid with hpid | hpid
      · exact absurd rfl (hnoted.found pid hpid)
      · exact hrest.found pid hpid
    | some f =>
      -- The new interrupt takes the place of the one before, if there was one.
      obtain ⟨found, hfound, hrest, hkept⟩ := ih true (some f) hnoted.interrupt b'
      have hsome : found ≠ none := hkept (Option.some_ne_none f)
      exact ⟨found, hfound, ⟨hrest.interrupt, fun _ _ => hsome⟩, fun _ => hsome⟩

/-- Leaving the group of a block that has come to its end heeds every interrupt. -/
theorem leave_heeding {α : Type} (host : Host) (hsilent : setting.Silent) (a : α) :
    (leave setting (.ok a)).Meets host (Heeding Block) := by
  intro b
  have htending := (tends_isTending setting).leave (.ok a) host b
  obtain ⟨found, hfound, hnoted, -⟩ := releaseAll_noted host hsilent
    (List.range b.group.members.length) false none nofun b
  simp only [leave, Action.bind_apply, Action.get_apply, Result.andThen_ok, Result.after_nil]
    at htending ⊢
  generalize releaseAll setting false none _ host b = r at hfound hnoted htending
  obtain ⟨outcome, b', l⟩ := r
  cases hfound
  cases found with
  | none =>
    refine EndsOnInterrupt.of_tending htending fun pid hpid => ?_
    exact absurd rfl (hnoted.found pid (by simpa using hpid))
  | some f =>
    obtain ⟨message, rfl⟩ := hnoted.interrupt f rfl
    exact EndsOnInterrupt.of_tending htending fun _ _ => ⟨message, rfl⟩

/-- Leaving the group of a block that has come to its end adds at most an interrupt. -/
theorem outcome_leave_ok {α : Type} (host : Host) (hsilent : setting.Silent) (a : α) (b : Block) :
    (leave setting (.ok a) host b).outcome = .ok a ∨
      ∃ message, (leave setting (.ok a) host b).outcome = .error (.interrupt message) := by
  obtain ⟨found, hfound, hnoted, -⟩ := releaseAll_noted host hsilent
    (List.range b.group.members.length) false none nofun b
  simp only [leave, Action.bind_apply, Action.get_apply, Result.andThen_ok, Result.after_nil]
  generalize releaseAll setting false none _ host b = r at hfound hnoted
  obtain ⟨outcome, b', l⟩ := r
  cases hfound
  cases found with
  | none => exact .inl rfl
  | some f =>
    obtain ⟨message, rfl⟩ := hnoted.interrupt f rfl
    exact .inr ⟨message, rfl⟩

/-- What comes out of a group is what came out of its block, or an interrupt of the leaving. -/
theorem closing_failure {α : Type} (hsilent : setting.Silent) {body : Action Block α} {b : Block}
    {f : Failure} (hf : (closing setting body host b).outcome = .error f) :
    (body host b).outcome = .error f ∨ ∃ message, f = .interrupt message := by
  rw [closing_apply, Result.outcome_after] at hf
  generalize body host b = r at hf
  obtain ⟨outcome, b', l⟩ := r
  cases outcome with
  | error f' =>
    rw [outcome_leave_error hsilent.quietOnEnds] at hf
    exact .inl hf
  | ok a =>
    rcases outcome_leave_ok host hsilent a b' with hok | ⟨message, hinterrupt⟩
    · cases hok.symm.trans hf
    · cases hinterrupt.symm.trans hf
      exact .inr ⟨message, rfl⟩

/-- Interrupts end a group whose block heeds them, except for those of leaving it after the block
    has failed in another way. -/
theorem closing_heeding {α : Type} (hsilent : setting.Silent) {body : Action Block α}
    (hbody : body.Meets host (Heeding Block)) (b : Block) :
    EndsOnInterrupt (closing setting body host b).events (closing setting body host b).failure? ∨
      ∃ f, (body host b).outcome = .error f ∧ (∀ message, f ≠ .interrupt message) ∧
        (closing setting body host b).failure? = some f ∧
        (closing setting body host b).events = (body host b).events ++
          (leave setting (body host b).outcome host (body host b).state).events ∧
        Uninterrupted (body host b).events := by
  have hbody := hbody b
  rw [closing_apply]
  generalize body host b = r at hbody
  obtain ⟨outcome, b', l⟩ := r
  cases outcome with
  -- The interrupts of leaving a block that has come to its end come out.
  | ok a => exact .inl (EndsOnInterrupt.append hbody (leave_heeding host hsilent a b'))
  | error f =>
    have houtcome : (leave setting (.error f : Except Failure α) host b').outcome = .error f :=
      outcome_leave_error hsilent.quietOnEnds f
    have hfailure := Result.failure?_eq_some.mpr houtcome
    by_cases hf : ∃ message, f = .interrupt message
    · obtain ⟨message, rfl⟩ := hf
      have htending := (tends_isTending setting).leave
        (.error (.interrupt message) : Except Failure α) host b'
      refine .inl ?_
      rw [Result.failure?_after, hfailure]
      exact EndsOnInterrupt.append_tending hbody htending ⟨message, rfl⟩
    · -- The block has failed in another way, so that it has been through no interrupt.
      rw [not_exists] at hf
      refine .inr ⟨f, rfl, hf, hfailure, rfl, ?_⟩
      exact EndsOnInterrupt.uninterrupted hbody fun message => by simpa using hf message

/-- A process in the foreground. -/
theorem foreground_heeding (host : Host) (hsilent : setting.Silent) (invocation : Invocation) :
    (foreground setting invocation).Meets host (Heeding Machine) := by
  intro m
  have hbody : (start setting invocation >>= wait setting).Meets host (Heeding Block) :=
    .bind (Heeding.sequential Block)
      (Heeding.of_uninterrupted ((starts_uninterrupted setting).start invocation) host)
      fun position => wait_heeding host hsilent position
  rw [foreground_eq_of_silent hsilent]
  exact hbody { machine := m }

end Group

/-! ## Pipelines -/

namespace Pipeline

variable {setting : Setting} {host : Host}

theorem waitStages_heeding (host : Host) (hsilent : setting.Silent) (positions : List Nat)
    (first : Option Failure) :
    (waitStages setting first positions).Meets host (Heeding Block) := by
  induction positions generalizing first with
  | nil => exact .pure (Heeding.sequential Block) first
  | cons i rest ih =>
    intro b
    have hwait := Group.wait_heeding host hsilent i b
    simp only [waitStages, Action.bind_apply, Action.attempt_apply, Result.andThen_ok]
    generalize Group.wait setting i host b = r at hwait
    obtain ⟨outcome, b', l⟩ := r
    cases outcome with
    | ok => exact EndsOnInterrupt.append hwait (ih first b')
    | error f =>
      cases f with
      -- The stage has failed without an interrupt, and the next one is waited for.
      | exitStatus program status =>
        have hnone : EndsOnInterrupt l none :=
          .of_uninterrupted (EndsOnInterrupt.uninterrupted hwait (by simp)) none
        have hrest := ih (first <|> some (.stage i (.exitStatus program status))) b'
        exact EndsOnInterrupt.append hnone hrest
      | _ => simpa [Heeding] using hwait

theorem runStages_heeding (host : Host) (hsilent : setting.Silent) (stages : List Invocation) :
    (runStages setting stages).Meets host (Heeding Block) := by
  have hstarts := startStages_keeps (Group.starts_uninterrupted setting) stages 0 none
  refine .bind (Heeding.sequential Block) (Heeding.of_uninterrupted hstarts host) fun _ => ?_
  refine .bind (Heeding.sequential Block) ?_ fun _ => ?_
  · exact fun b => EndsOnInterrupt.of_uninterrupted (.single (by simp)) none
  · have hwaits := waitStages_heeding host hsilent (List.range stages.length) none
    refine .bind (Heeding.sequential Block) hwaits fun failure => ?_
    cases failure with
    | none => exact .pure (Heeding.sequential Block) ()
    | some f => exact Heeding.fail host f

/-- The block of a pipeline fails with a failure that is no interrupt, and its group is left:
    the events up to the failure and those of the leaving. -/
def Abandons (setting : Setting) (host : Host) (f : Failure) (ran left : List Event) : Prop :=
  ∃ stages m, let r := runStages setting stages host { machine := m }
    r.outcome = .error f ∧ (∀ message, f ≠ .interrupt message) ∧ ran = r.events ∧
      left = (Group.leave setting r.outcome host r.state).events

/-- The events of a pipeline and the failure that comes out: either interrupted waits end it,
    or the waits in question are those of abandoning it. -/
theorem run_heeding (host : Host) (hsilent : setting.Silent) (stages : List (List String))
    (m : Machine) :
    EndsOnInterrupt (run setting stages host m).events (run setting stages host m).failure? ∨
      ∃ f ran left, (run setting stages host m).failure? = some f ∧
        (run setting stages host m).events = ran ++ left ∧ Uninterrupted ran ∧
        Abandons setting host f ran left := by
  cases hstages : stages.mapM Invocation.ofWords with
  | error f =>
    simp only [run, hstages]
    exact .inl (Heeding.fail (α := Unit) host emptyStage m)
  | ok invocations =>
    rw [run_of_mapM_ofWords hstages]
    rcases Group.closing_heeding hsilent (runStages_heeding host hsilent invocations)
        { machine := m } with hends | ⟨f, hf, hother, hfailure, hevents, hran⟩
    · exact .inl hends
    · exact .inr ⟨f, _, _, hfailure, hevents, hran, invocations, m, hf, hother, rfl, rfl⟩

end Pipeline

end LineShell
