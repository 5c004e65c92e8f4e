/-
  LineShell.Proofs.Governor.Invariant

  What holds of a governor after every step.

  The handler in place is that of the mode, the transitions are the modes entered
  by the calls that have succeeded, and a call that is refused changes nothing.  The
  handler that a restore puts in place is the one that was there before the first
  guard since the last restore; without such a guard there is nothing to restore.
  Each block that has been entered is guarded once when it is left.

  What one record does to the mode, the transitions and the kept handler is read off
  `Took`; what a run does follows along the records (`Chained`).
-/

import LineShell.Proofs.Governor.Records

namespace LineShell.Governor

variable {policy : Policy} {s : Session} {r : Record} {l l₁ l₂ : List Record}

/-! ## Since the last restore -/

/-- A guard has succeeded since the last restore, or since the start if there was none. -/
def GuardedSince (l : List Record) : Prop :=
  ∃ earlier g later, l = earlier ++ g :: later ∧ g.Guards ∧ ∀ r ∈ later, ¬ r.Restores

/-- The given records are those before the first guard that has succeeded since then. -/
def FirstGuard (l earlier : List Record) : Prop :=
  ∃ g later, l = earlier ++ g :: later ∧ g.Guards ∧ (∀ r ∈ later, ¬ r.Restores) ∧
    ¬ GuardedSince earlier

theorem guardedSince_concat :
    GuardedSince (l ++ [r]) ↔ r.Guards ∨ GuardedSince l ∧ ¬ r.Restores := by
  constructor
  · rintro ⟨earlier, g, later, hl, hg, hlater⟩
    -- The guard is the new record itself, or it lies before it.
    rcases later.eq_nil_or_concat with rfl | ⟨later, r', rfl⟩
    · obtain ⟨rfl, hr⟩ := List.append_inj' hl rfl
      cases hr
      exact .inl hg
    · rw [List.concat_eq_append, ← List.cons_append, ← List.append_assoc] at hl
      obtain ⟨rfl, hr⟩ := List.append_inj' hl rfl
      cases hr
      refine .inr ⟨⟨earlier, g, later, rfl, hg, fun x hx => ?_⟩, ?_⟩
      · exact hlater x (by simp [hx])
      · exact hlater r (by simp)
  · rintro (hr | ⟨⟨earlier, g, later, rfl, hg, hlater⟩, hr⟩)
    · exact ⟨l, r, [], rfl, hr, by simp⟩
    · refine ⟨earlier, g, later ++ [r], by simp, hg, fun x hx => ?_⟩
      rcases List.mem_append.mp hx with hx | hx
      · exact hlater x hx
      · rw [List.mem_singleton.mp hx]
        exact hr

theorem FirstGuard.concat {earlier : List Record} (h : FirstGuard l earlier)
    (hr : ¬ r.Restores) : FirstGuard (l ++ [r]) earlier := by
  obtain ⟨g, later, rfl, hg, hlater, hearlier⟩ := h
  refine ⟨g, later ++ [r], by simp, hg, fun x hx => ?_, hearlier⟩
  rcases List.mem_append.mp hx with hx | hx
  · exact hlater x hx
  · rw [List.mem_singleton.mp hx]
    exact hr

/-! ## One record -/

/-- The handler in place is that of the mode. -/
structure Matches (policy : Policy) (s : Session) : Prop where
  guarded : s.governor.mode = some .guarded → s.machine.handler = .ignore
  exposed : s.governor.mode = some .exposed → s.machine.handler = policy.exposedHandler

namespace Took

theorem matches_after (h : Took policy s r) (hs : Matches policy s) : Matches policy r.after := by
  cases h with
  | idle => exact hs
  | refused => exact ⟨hs.guarded, hs.exposed⟩
  | guarded => exact ⟨fun _ => rfl, by rintro ⟨⟩⟩
  | exposed => exact ⟨by rintro ⟨⟩, fun _ => rfl⟩
  | restored => exact ⟨by rintro ⟨⟩, by rintro ⟨⟩⟩

theorem transitions_after (h : Took policy s r) :
    r.after.governor.transitions = s.governor.transitions ++ r.entered?.toList := by
  cases h with
  | idle => exact (List.append_nil _).symm
  | refused => exact (List.append_nil _).symm
  | guarded outcome message h =>
    have hentered : ∀ result : Result Session Unit, Record.accepted ⟨_, result⟩ = true →
        Record.entered? ⟨_, result⟩ = some .guarded := fun _ ha => (if_pos ha).trans h
    rw [hentered _ rfl]
    rfl
  | exposed message h =>
    have hentered : ∀ result : Result Session Unit, Record.accepted ⟨_, result⟩ = true →
        Record.entered? ⟨_, result⟩ = some .exposed := fun _ ha => (if_pos ha).trans h
    rw [hentered _ rfl]
    rfl
  | restored => exact (List.append_nil _).symm

/-- What becomes of the handler that is kept. -/
theorem saved_after (h : Took policy s r) :
    (r.Guards ∧ ¬ r.Restores ∧
        r.after.governor.saved = some (s.governor.saved.getD s.machine.handler)) ∨
      (¬ r.Guards ∧ r.Restores ∧ r.after.governor.saved = none) ∨
      (¬ r.Guards ∧ ¬ r.Restores ∧ r.after.governor.saved = s.governor.saved) := by
  have hnot : ∀ {r : Record}, r.accepted = false → ¬ r.Guards ∧ ¬ r.Restores := by
    intro r hr
    simp [Record.Guards, Record.Restores, Record.entered?, hr]
  cases h with
  | idle => exact .inr (.inr ⟨(hnot rfl).1, (hnot rfl).2, rfl⟩)
  | refused => exact .inr (.inr ⟨(hnot rfl).1, (hnot rfl).2, rfl⟩)
  | guarded outcome message h =>
    refine .inl ⟨h, ?_, rfl⟩
    rintro ⟨rfl, -⟩
    cases h
  | exposed message h =>
    refine .inr (.inr ⟨?_, ?_, rfl⟩)
    · intro hguards
      cases h.symm.trans hguards
    · rintro ⟨rfl, -⟩
      cases h
  | restored => exact .inr (.inl ⟨by rintro ⟨⟩, ⟨rfl, rfl⟩, rfl⟩)

theorem of_refused (h : Took policy s r) {handler : Signal.Handler}
    (hr : .signal policy.signum handler false ∈ r.result.events) :
    r.after.governor = s.governor ∧ r.after.machine.handler = s.machine.handler := by
  cases h with
  | idle => cases hr
  | refused => exact ⟨rfl, rfl⟩
  | guarded => simp at hr
  | exposed => simp at hr
  | restored => simp at hr

theorem restore_of_none (h : Took policy s r) (hr : r.moment = .restore)
    (hs : s.governor.saved = none) : r.installs = [] ∧ r.after = s := by
  cases h with
  | idle => exact ⟨rfl, rfl⟩
  | refused f h =>
    cases hr
    cases hs.symm.trans h
  | guarded outcome message h =>
    cases hr
    cases h
  | exposed message h =>
    cases hr
    cases h
  | restored message h => cases hs.symm.trans h

theorem restore_of_some (h : Took policy s r) (hr : r.moment = .restore)
    {previous : Signal.Handler} (hs : s.governor.saved = some previous) :
    r.installs = [.signal policy.signum previous r.accepted] ∧
      (r.accepted = true → r.after.machine.handler = previous ∧ r.after.governor.mode = none) := by
  cases h with
  | idle h => cases h.symm.trans hs
  | refused f h =>
    cases hr
    cases h.symm.trans hs
    exact ⟨rfl, by rintro ⟨⟩⟩
  | guarded outcome message h =>
    cases hr
    cases h
  | exposed message h =>
    cases hr
    cases h
  | restored message h =>
    cases h.symm.trans hs
    exact ⟨rfl, fun _ => ⟨rfl, rfl⟩⟩

end Took

/-! ## The records of a run -/

namespace Chained

theorem matches_after (h : Chained policy s l) (hs : Matches policy s) :
    Matches policy (stateAfter s l) := by
  induction h with
  | nil s => exact hs
  | cons h _ ih => exact ih (h.matches_after hs)

theorem transitions_after (h : Chained policy s l) :
    (stateAfter s l).governor.transitions
      = s.governor.transitions ++ l.filterMap Record.entered? := by
  induction h with
  | nil s => exact (List.append_nil _).symm
  | @cons s r l h _ ih =>
    rw [stateAfter_cons, ih, h.transitions_after, List.append_assoc, List.filterMap_cons]
    cases r.entered? <;> rfl

/-- The handler that is kept is the one before the first guard since the last restore. -/
theorem saved_after (h : Chained policy s l) (hs : s.governor.saved = none) :
    (¬ GuardedSince l ∧ (stateAfter s l).governor.saved = none) ∨
      ∃ earlier, FirstGuard l earlier ∧
        (stateAfter s l).governor.saved = some (stateAfter s earlier).machine.handler := by
  -- From the last record back: what it does to the kept handler is the last thing done to it.
  induction l using List.reverseRecOn with
  | nil =>
    refine .inl ⟨?_, hs⟩
    rintro ⟨earlier, g, later, hl, -⟩
    simp at hl
  | append_singleton l r ih =>
    obtain ⟨hl, hr⟩ := h.of_concat
    rw [stateAfter_append, guardedSince_concat]
    rcases hr.saved_after with ⟨hguards, hrestores, hsaved⟩ | ⟨hguards, hrestores, hsaved⟩ |
      ⟨hguards, hrestores, hsaved⟩
    · right
      rcases ih hl with ⟨hsince, hnone⟩ | ⟨earlier, hfirst, hsome⟩
      · refine ⟨l, ⟨r, [], rfl, hguards, by simp, hsince⟩, ?_⟩
        rw [hnone] at hsaved
        exact hsaved
      · refine ⟨earlier, hfirst.concat hrestores, ?_⟩
        rw [hsome] at hsaved
        exact hsaved
    · exact .inl ⟨by simp [hguards, hrestores], hsaved⟩
    · rcases ih hl with ⟨hsince, hnone⟩ | ⟨earlier, hfirst, hsome⟩
      · exact .inl ⟨by simp [hguards, hsince], hsaved.trans hnone⟩
      · exact .inr ⟨earlier, hfirst.concat hrestores, hsaved.trans hsome⟩

end Chained

/-! ## Blocks -/

/-- Each block that has been entered is left behind the records of its steps, and leaving it
    asks for the handler of the guarded mode once. -/
def Blocks (policy : Policy) (host : Host) (l : List Record) : Prop :=
  ∀ done enter rest, l = done ++ enter :: rest → enter.moment = .enter →
    ∃ steps leave later,
      rest = (runSteps policy host steps enter.after).records ++ leave :: later ∧
      leave.moment = .leave ∧
      ∃ ok, leave.installs = [.signal policy.signum Signal.Handler.ignore ok]

namespace Blocks

variable {host : Host}

theorem nil : Blocks policy host [] := by
  intro done enter rest hl
  simp at hl

theorem single (hr : r.moment ≠ .enter) : Blocks policy host [r] := by
  intro done enter rest hl henter
  cases done with
  | nil =>
    cases hl
    exact absurd henter hr
  | cons r' done => simp at hl

theorem append (h₁ : Blocks policy host l₁) (h₂ : Blocks policy host l₂) :
    Blocks policy host (l₁ ++ l₂) := by
  intro done enter rest hl henter
  rcases List.append_eq_append_iff.mp hl with ⟨middle, rfl, hmiddle⟩ | ⟨middle, hmiddle, hrest⟩
  · exact h₂ middle enter rest hmiddle henter
  · cases middle with
    | nil => exact h₂ [] enter rest (by simpa using hrest.symm) henter
    | cons r' middle =>
      injection hrest with hhead htail
      subst hhead htail
      obtain ⟨steps, leave, later, rfl, hleave, hinstalls⟩ := h₁ done enter middle hmiddle henter
      exact ⟨steps, leave, later ++ l₂, by simp, hleave, hinstalls⟩

end Blocks

mutual

theorem runStep_blocks (policy : Policy) (host : Host) (step : Step) (s : Session) :
    Blocks policy host (runStep policy host step s).records := by
  match step with
  | .guard => exact .single (by rintro ⟨⟩)
  | .expose => exact .single (by rintro ⟨⟩)
  | .restore => exact .single (by rintro ⟨⟩)
  | .raise f => exact .nil
  | .block steps =>
    rw [runStep]
    cases hentered : (expose policy host s).outcome with
    | error f => exact .single (by rintro ⟨⟩)
    | ok u =>
      have hinside := runSteps_blocks policy host steps (expose policy host s).state
      obtain ⟨-, hguard⟩ := leave_took policy host
        (runSteps policy host steps (expose policy host s).state).raised
        (runSteps policy host steps (expose policy host s).state).session
      intro done enter rest hl henter
      cases done with
      | nil =>
        -- The block itself: its leave is the last of its records.
        cases hl
        exact ⟨steps, _, [], rfl, rfl, hguard⟩
      | cons r done =>
        injection hl with _ hl
        exact hinside.append (.single (by rintro ⟨⟩)) done enter rest hl henter

theorem runSteps_blocks (policy : Policy) (host : Host) (steps : List Step) (s : Session) :
    Blocks policy host (runSteps policy host steps s).records := by
  match steps with
  | [] => exact .nil
  | step :: rest =>
    have hfirst := runStep_blocks policy host step s
    rw [runSteps]
    cases hraised : (runStep policy host step s).raised with
    | some f => exact hfirst
    | none =>
      exact hfirst.append (runSteps_blocks policy host rest (runStep policy host step s).session)

end

/-! ## All of it -/

/-- What holds after a record, given the session at the start and the records before it. -/
structure Governs (policy : Policy) (s : Session) (done : List Record) (r : Record) : Prop where
  /-- The handler in place is that of the mode. -/
  mode : Matches policy r.after
  /-- The transitions are the modes entered by the calls that have succeeded. -/
  transitions : r.after.governor.transitions = (done ++ [r]).filterMap Record.entered?
  /-- A call that is refused changes nothing. -/
  refused : ∀ handler, .signal policy.signum handler false ∈ r.result.events →
    r.after.governor = (stateAfter s done).governor ∧
      r.after.machine.handler = (stateAfter s done).machine.handler
  /-- Without a guard since the last restore, a restore calls for nothing. -/
  idle : r.moment = .restore → ¬ GuardedSince done → r.installs = [] ∧ r.after = stateAfter s done
  /-- A restore calls for the handler before the first guard since the last restore. -/
  restore : r.moment = .restore → GuardedSince done → ∃ earlier, FirstGuard done earlier ∧
    r.installs = [.signal policy.signum (stateAfter s earlier).machine.handler r.accepted] ∧
    (r.accepted = true →
      r.after.machine.handler = (stateAfter s earlier).machine.handler ∧
        r.after.governor.mode = none)

theorem Chained.governs {m : Machine} (h : Chained policy { machine := m } (l ++ [r])) :
    Governs policy { machine := m } l r := by
  obtain ⟨hl, hr⟩ := h.of_concat
  -- A new governor has no mode, so whatever handler is in place is right.
  have hnew : Matches policy { machine := m } := ⟨by rintro ⟨⟩, by rintro ⟨⟩⟩
  have hsaved := hl.saved_after rfl
  refine ⟨hr.matches_after (hl.matches_after hnew), ?_, fun handler => hr.of_refused, ?_, ?_⟩
  · have htransitions := h.transitions_after
    rw [stateAfter_append] at htransitions
    exact htransitions
  -- A handler is kept exactly if a guard has succeeded since the last restore.
  · intro hmoment hsince
    rcases hsaved with ⟨-, hnone⟩ | ⟨earlier, ⟨g, later, rfl, hg, hlater, -⟩, -⟩
    · exact hr.restore_of_none hmoment hnone
    · exact absurd ⟨earlier, g, later, rfl, hg, hlater⟩ hsince
  · intro hmoment hsince
    rcases hsaved with ⟨hno, -⟩ | ⟨earlier, hfirst, hsome⟩
    · exact absurd hsince hno
    · exact ⟨earlier, hfirst, hr.restore_of_some hmoment hsome⟩

/-- After every step of a new governor, in blocks and out of them, whatever is raised and
    whatever the system refuses: the handler in place is that of the mode, and what is kept is
    what was there before the first guard since the last restore. -/
theorem runSteps_governs (policy : Policy) (host : Host) (steps : List Step) (m : Machine) :
    (runSteps policy host steps { machine := m }).session
        = stateAfter { machine := m } (runSteps policy host steps { machine := m }).records ∧
      (∀ done r later, (runSteps policy host steps { machine := m }).records = done ++ r :: later →
        Governs policy { machine := m } done r) ∧
      Blocks policy host (runSteps policy host steps { machine := m }).records := by
  obtain ⟨hchained, hsession⟩ := runSteps_chained policy host steps { machine := m }
  refine ⟨hsession, fun done r later hrecords => ?_, runSteps_blocks policy host steps _⟩
  rw [hrecords, List.append_cons] at hchained
  exact hchained.of_append.1.governs

end LineShell.Governor
