/-
  LineShell.Proofs.Group.Leaving

  What leaving a group does with its members.

  Leaving a group goes through all its members in the order of their start, and
  waits for those that have not been waited for.  Only the observer can end this
  early, by failing with anything but an interrupt when it is told of an end
  (`releaseAll_goesThrough`).  Where it does no such thing, every member has been
  waited for in the end, so that a group gives back every process that it has
  started (`within_balanced`).
-/

import LineShell.Proofs.Group.Accounts

namespace LineShell

/-- An observer that is told of an end returns or interrupts. -/
def Setting.QuietOnEnds (setting : Setting) : Prop :=
  ∀ pid argv status f, setting.Answers (.reaped pid argv status) f →
    ∃ message, f = .interrupt message

/-- The observer fails with anything but an interrupt. -/
def Setting.Breaks (setting : Setting) (event : ProcessEvent) (f : Failure) : Prop :=
  setting.Answers event f ∧ ∀ message, f ≠ .interrupt message

theorem Setting.QuietOnEnds.not_breaks {setting : Setting} (h : setting.QuietOnEnds) {pid : Int}
    {argv : List String} {status : Int} {f : Failure} :
    ¬ setting.Breaks (.reaped pid argv status) f := by
  rintro ⟨hanswer, hf⟩
  obtain ⟨message, hmessage⟩ := h pid argv status f hanswer
  exact hf message hmessage

namespace Group

variable {setting : Setting} {α β : Type}

/-! ## Going through the members -/

/-- Tending changes no number and forgets nobody who has been waited for. -/
theorem tends_grows (setting : Setting) : Tends setting fun b _ b' =>
    b'.pids = b.pids ∧ b.group.reaped ⊆ b'.group.reaped where
  nil _ := ⟨rfl, List.Subset.refl _⟩
  append h₁ h₂ := ⟨h₂.1.trans h₁.1, List.Subset.trans h₁.2 h₂.2⟩
  log _ _ _ := ⟨rfl, List.Subset.refl _⟩
  reap i host b := by
    have hspec := reap_spec setting i host b
    generalize reap setting i host b = r at hspec
    cases hspec with
    | absent => exact ⟨rfl, List.Subset.refl _⟩
    | again => exact ⟨rfl, List.Subset.refl _⟩
    | ended =>
      refine ⟨?_, List.subset_append_left _ _⟩
      rw [Block.pids_markReaped, Block.pids_ended]
      rfl
  terminate _ _ := ⟨Block.pids_terminated .., List.Subset.refl _⟩

/-- What going through members with the given numbers comes to, `waited` being those that have
    been waited for before: all of them are waited for, or only those up to the one of whose end
    the observer has been told when it broke. -/
inductive GoesThrough (setting : Setting) (waited pids : List Int) :
    Result Block (Option Failure) → Prop
  | all {found : Option Failure} {b : Block} {l : List Event} (hpids : pids ⊆ b.group.reaped)
      (hreaped : b.group.reaped ⊆ waited ++ pids) :
      GoesThrough setting waited pids ⟨.ok found, b, l⟩
  | broken {before behind : List Int} {pid : Int} {argv : List String} {status : Int} {f : Failure}
      {b : Block} {l : List Event} (hpids : pids = before ++ pid :: behind)
      (hbreaks : setting.Breaks (.reaped pid argv status) f)
      (hbefore : before ++ [pid] ⊆ b.group.reaped)
      (hreaped : b.group.reaped ⊆ waited ++ (before ++ [pid])) :
      GoesThrough setting waited pids ⟨.error f, b, l ++ [.hook (.reaped pid argv status)]⟩

namespace GoesThrough

variable {waited waited' pids pids' : List Int} {r : Result Block (Option Failure)}

theorem after (h : GoesThrough setting waited pids r) (l : List Event) :
    GoesThrough setting waited pids (r.after l) := by
  cases h with
  | all hpids hreaped => exact .all hpids hreaped
  | broken hpids hbreaks hbefore hreaped =>
    rw [Result.after_mk, ← List.append_assoc]
    exact .broken hpids hbreaks hbefore hreaped

/-- Members that have been gone through to the end, and others behind them. -/
theorem append (hpids : pids ⊆ waited') (hwaited : waited' ⊆ waited ++ pids)
    (hgrows : waited' ⊆ r.state.group.reaped) (h : GoesThrough setting waited' pids' r) :
    GoesThrough setting waited (pids ++ pids') r := by
  have hmono : ∀ more : List Int, waited' ++ more ⊆ waited ++ (pids ++ more) := by
    intro more
    rw [← List.append_assoc]
    exact List.append_subset.mpr
      ⟨List.Subset.trans hwaited (List.subset_append_left _ _), List.subset_append_right _ _⟩
  cases h with
  | all hpids' hreaped =>
    exact .all (List.append_subset.mpr ⟨List.Subset.trans hpids hgrows, hpids'⟩)
      (List.Subset.trans hreaped (hmono pids'))
  | @broken before behind pid _ _ _ _ _ hsplit hbreaks hbefore hreaped =>
    have hpids' : pids ++ pids' = (pids ++ before) ++ pid :: behind := by
      rw [hsplit, List.append_assoc]
    refine .broken hpids' hbreaks ?_ ?_
    · rw [List.append_assoc]
      exact List.append_subset.mpr ⟨List.Subset.trans hpids hgrows, hbefore⟩
    · rw [List.append_assoc]
      exact List.Subset.trans hreaped (hmono (before ++ [pid]))

end GoesThrough

theorem settle_apply_of_error {i : Nat} {host : Host} {b b' : Block} {f : Failure}
    {l : List Event} (h : reap setting i host b = ⟨.error f, b', l⟩)
    (hf : ∀ message, f ≠ .interrupt message) :
    settle setting i host b = ⟨.error f, b', l⟩ := by
  simp only [settle, Action.bind_apply, Action.attempt_apply, Result.andThen_ok, h]
  cases f with
  | interrupt message => exact absurd rfl (hf message)
  | _ => simp

theorem settle_goesThrough {i : Nat} {p : Process} (host : Host) {b : Block}
    (hp : b.member? i = some p) :
    GoesThrough setting b.group.reaped [p.pid] (settle setting i host b) := by
  have hspec := reap_spec setting i host b
  generalize hr : reap setting i host b = r at hspec
  have hmem : [p.pid] ⊆ b.group.reaped ++ [p.pid] := List.subset_append_right _ _
  cases hspec with
  | absent h =>
    rw [hp] at h
    cases h
  | again h hreaped =>
    rw [hp] at h
    cases h
    simp only [settle, Action.bind_apply, Action.attempt_apply, hr, Result.andThen_ok]
    exact .all (by simpa using hreaped) (List.subset_append_left _ _)
  | ended outcome message h _ _ houtcome =>
    rw [hp] at h
    cases h
    by_cases hbreaks : ∃ f, outcome = .error f ∧ ∀ message, f ≠ .interrupt message
    -- What comes out is not the interrupt of a wait, so it is what the observer has answered.
    · obtain ⟨f, rfl, hf⟩ := hbreaks
      have hanswer := (houtcome f rfl).resolve_left (hf "")
      have hhook : setting.hook.isSome = true := by
        obtain ⟨hook, _, hhook, -⟩ := hanswer
        rw [hhook]
        rfl
      rw [settle_apply_of_error hr hf, notices_of_hook hhook, List.append_cons]
      have hpids : [p.pid] = [] ++ p.pid :: [] := rfl
      exact .broken hpids ⟨hanswer, hf⟩ hmem (List.Subset.refl _)
    · simp only [settle, Action.bind_apply, Action.attempt_apply, hr, Result.andThen_ok]
      cases outcome with
      | ok status? => exact .all hmem (List.Subset.refl _)
      | error f =>
        cases f with
        | interrupt message => exact .all hmem (List.Subset.refl _)
        | _ => exact absurd ⟨_, rfl, nofun⟩ hbreaks

theorem release_goesThrough (setting : Setting) (stopping : Bool) (i : Nat) (host : Host)
    (b : Block) :
    GoesThrough setting b.group.reaped b.pids[i]?.toList (release setting stopping i host b) := by
  have hspec := release_spec setting stopping i host b
  generalize release setting stopping i host b = r at hspec
  rw [Block.getElem?_pids]
  cases hspec with
  | absent h =>
    rw [h]
    exact .all (List.nil_subset _) (List.subset_append_left _ _)
  | again h hreaped =>
    rw [h]
    exact .all (by simpa using hreaped) (List.subset_append_left _ _)
  | waited h _ =>
    rw [h]
    exact settle_goesThrough host h
  | stopped message h _ _ =>
    -- The termination marks the member, but its number stays.
    have hterminated := Block.member?_modifyMember b i Process.terminated
    rw [h] at hterminated ⊢
    exact (settle_goesThrough host hterminated).after _

theorem releaseAll_goesThrough (setting : Setting) (positions : List Nat) (stopping : Bool)
    (interrupt : Option Failure) (host : Host) (b : Block) :
    GoesThrough setting b.group.reaped (positions.filterMap (b.pids[·]?))
      (releaseAll setting stopping interrupt positions host b) := by
  induction positions generalizing stopping interrupt b with
  | nil => exact .all (List.nil_subset _) (List.subset_append_left _ _)
  | cons i rest ih =>
    have hfirst := release_goesThrough setting stopping i host b
    have hpids := ((tends_grows setting).release stopping i host b).1
    have hsplit : (i :: rest).filterMap (b.pids[·]?)
        = b.pids[i]?.toList ++ rest.filterMap (b.pids[·]?) := by
      rw [List.filterMap_cons]
      cases b.pids[i]? <;> rfl
    rw [releaseAll, Action.bind_apply, hsplit]
    generalize release setting stopping i host b = r at hfirst hpids
    cases hfirst with
    | @broken before behind pid _ _ _ _ _ hfirst hbreaks hbefore hreaped =>
      have hpids' : b.pids[i]?.toList ++ rest.filterMap (b.pids[·]?)
          = before ++ pid :: (behind ++ rest.filterMap (b.pids[·]?)) := by
        rw [hfirst, List.append_assoc, List.cons_append]
      exact .broken hpids' hbreaks hbefore hreaped
    | @all found b' l hdone hreaped =>
      -- What is left is gone through all the same, with the stop or without.
      have hrest : ∀ stopping interrupt, GoesThrough setting b.group.reaped
          (b.pids[i]?.toList ++ rest.filterMap (b.pids[·]?))
          (releaseAll setting stopping interrupt rest host b') := by
        intro stopping interrupt
        have hlater := ih stopping interrupt b'
        rw [show b'.pids = b.pids from hpids] at hlater
        have hgrows := ((tends_grows setting).releaseAll rest stopping interrupt host b').2
        exact hlater.append hdone hreaped hgrows
      cases found with
      | none => exact (hrest stopping interrupt).after l
      | some f => exact (hrest true (some f)).after l

/-- Leaving goes through the numbers of all members. -/
theorem filterMap_range_pids (b : Block) :
    (List.range b.group.members.length).filterMap (b.pids[·]?) = b.pids := by
  have hall : ∀ l : List Int, (List.range l.length).filterMap (l[·]?) = l := by
    intro l
    induction l with
    | nil => rfl
    | cons pid l ih =>
      rw [List.length_cons, List.range_succ_eq_map, List.filterMap_cons, List.filterMap_map]
      exact congrArg (pid :: ·) ih
  have hlength : b.pids.length = b.group.members.length := List.length_map ..
  rw [← hlength, hall]

/-- Leaving comes to the state and the events of releasing all members, and to its failure. -/
theorem leave_spec (setting : Setting) (outcome : Except Failure α) (host : Host) (b : Block) :
    ∃ stopping, let released :=
        releaseAll setting stopping none (List.range b.group.members.length) host b
      GoesThrough setting b.group.reaped b.pids released ∧
        (leave setting outcome host b).state = released.state ∧
        (leave setting outcome host b).events = released.events ∧
        ∀ f, released.outcome = .error f → (leave setting outcome host b).outcome = .error f := by
  have hthrough := fun stopping => releaseAll_goesThrough setting
    (List.range b.group.members.length) stopping none host b
  rw [filterMap_range_pids] at hthrough
  cases outcome with
  | error f =>
    refine ⟨true, hthrough true, ?_⟩
    simp only [leave, Action.bind_apply, Action.get_apply, Result.andThen_ok]
    generalize releaseAll setting true none _ host b = r
    obtain ⟨outcome | found, b', l⟩ := r <;> simp
  | ok a =>
    refine ⟨false, hthrough false, ?_⟩
    simp only [leave, Action.bind_apply, Action.get_apply, Result.andThen_ok]
    generalize releaseAll setting false none _ host b = r
    obtain ⟨outcome | _ | found, b', l⟩ := r <;> simp

/-! ## Everybody is waited for -/

theorem releaseAll_quiet (hquiet : setting.QuietOnEnds) (positions : List Nat) (stopping : Bool)
    (interrupt : Option Failure) (host : Host) (b : Block) :
    ∃ found, (releaseAll setting stopping interrupt positions host b).outcome = .ok found := by
  have hthrough := releaseAll_goesThrough setting positions stopping interrupt host b
  generalize releaseAll setting stopping interrupt positions host b = r at hthrough
  cases hthrough with
  | all => exact ⟨_, rfl⟩
  | broken _ hbreaks => exact absurd hbreaks hquiet.not_breaks

/-- After the leaving, every member has been waited for. -/
theorem leave_quiet (hquiet : setting.QuietOnEnds) (outcome : Except Failure α) (host : Host)
    (b : Block) : (leave setting outcome host b).state.pending = ∅ := by
  obtain ⟨stopping, hthrough, hstate, -, -⟩ := leave_spec setting outcome host b
  have hpids := ((tends_grows setting).leave outcome host b).1
  rw [hstate] at hpids ⊢
  generalize releaseAll setting stopping none _ host b = r at hthrough hpids
  cases hthrough with
  | all hreaped =>
    -- Leaving adds no member, so those gone through are all members.
    rw [Block.pending, hpids, Finset.sdiff_eq_empty_iff_subset]
    exact fun pid hpid => List.mem_toFinset.mpr (hreaped (List.mem_toFinset.mp hpid))
  | broken _ hbreaks => exact absurd hbreaks hquiet.not_breaks

theorem closing_quiet (hquiet : setting.QuietOnEnds) (body : Action Block α) (host : Host)
    (b : Block) : (closing setting body host b).state.pending = ∅ :=
  leave_quiet hquiet (body host b).outcome host (body host b).state

/-! ## Whole groups -/

/-- A group whose members are started by the first part of its block and tended by the second:
    where the numbers of the members are distinct, every process is held from its start on and
    given back. -/
theorem within_balanced (hquiet : setting.QuietOnEnds)
    {first : Action Block α} {second : α → Action Block β}
    (hfirst : ∀ R, Starts setting R → first.Keeps R)
    (hsecond : ∀ R, Tends setting R → ∀ a, (second a).Keeps R) (host : Host) (m : Machine)
    (hnodup : (processes.acquired (within setting (first >>= second) host m).events).Nodup) :
    processes.run ∅ (within setting (first >>= second) host m).events = some ∅ := by
  obtain ⟨l₂, hevents, hfollows₂⟩ :=
    tends_follows.closing_bind (hsecond _ tends_follows) host { machine := m }
  have hfollows₁ := hfirst _ starts_follows host { machine := m }
  have hfollows := Follows.isPath.append hfollows₁ hfollows₂
  have hwithin : (within setting (first >>= second) host m).events
      = (first host { machine := m }).events ++ l₂ := hevents
  rw [hwithin] at hnodup ⊢
  -- The block begins without members, and in the end nobody is pending.
  have hpending := closing_quiet hquiet (first >>= second) host { machine := m }
  have hrun := hfollows.run (List.nil_subset _) (hfollows.pids ▸ hnodup)
  rw [hpending] at hrun
  exact hrun

end Group

end LineShell
