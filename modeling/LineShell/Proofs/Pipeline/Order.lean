/-
  LineShell.Proofs.Pipeline.Order

  When a pipeline closes the ends of its pipes.

  Pipe `i` runs from stage `i` to stage `i + 1`.  Its write end is closed once the
  start of stage `i` has been attempted.  Its read end is closed once the start of
  stage `i + 1` has been attempted, or when the pipeline is abandoned, which is
  then its failure.  An attempt counts as soon as it has reached the system; the
  only one that does not is one with a null character in an argument.
-/

import LineShell.Proofs.Event.Custody
import LineShell.Proofs.Pipeline.Trace

namespace LineShell

/-- Whether somebody is waited for or terminated. -/
def Event.isReaping : Event → Bool
  | .wait .. | .terminate _ => true
  | _ => false

namespace Pipeline

/-! ## What has been attempted -/

/-- The argument lists of the attempts to start a process that have reached the system. -/
def attempted (l : List Event) : List (List String) :=
  l.filterMap fun
    | .spawn _ argv .. | .spawnFailed argv .. => some argv
    | _ => none

/-- The pipes handed out, in order. -/
def pipes (l : List Event) : List (Descriptor × Descriptor) :=
  l.filterMap fun
    | .pipe readEnd writeEnd => some (readEnd, writeEnd)
    | _ => none

/-- Nothing is started any more, and no pipe asked for. -/
def Abandoned (l : List Event) : Prop := attempted l = [] ∧ pipes l = []

@[simp] theorem attempted_append (l₁ l₂ : List Event) :
    attempted (l₁ ++ l₂) = attempted l₁ ++ attempted l₂ := List.filterMap_append

@[simp] theorem pipes_append (l₁ l₂ : List Event) :
    pipes (l₁ ++ l₂) = pipes l₁ ++ pipes l₂ := List.filterMap_append

theorem abandoned_closes (fd : Option Descriptor) : Abandoned (closes fd) := by
  cases fd <;> exact ⟨rfl, rfl⟩

theorem abandoned_of_tending {l : List Event} (h : ∀ e ∈ l, e.isTending = true) :
    Abandoned l := by
  refine ⟨List.filterMap_eq_nil_iff.mpr fun e he => ?_,
    List.filterMap_eq_nil_iff.mpr fun e he => ?_⟩ <;>
  · have htending := h e he
    cases e <;> first | rfl | cases htending

/-- Something holds wherever an end is closed, of what is before and what is behind. -/
def ClosesWhen (P : List Event → Descriptor → List Event → Prop) (l : List Event) : Prop :=
  ∀ l₁ fd l₂, l = l₁ ++ .close fd :: l₂ → P l₁ fd l₂

namespace ClosesWhen

variable {P Q : List Event → Descriptor → List Event → Prop} {l l' : List Event}

theorem of_notMem (h : ∀ fd, Event.close fd ∉ l) : ClosesWhen P l := by
  intro l₁ fd l₂ hl
  exact absurd (by simp [hl]) (h fd)

theorem single {fd : Descriptor} (h : P [] fd []) : ClosesWhen P [.close fd] := by
  intro l₁ fd' l₂ hl
  cases l₁ with
  | nil =>
    cases hl
    exact h
  | cons e l₁ => simp at hl

theorem append (h : ClosesWhen (fun l₁ fd l₂ => P l₁ fd (l₂ ++ l')) l)
    (h' : ClosesWhen (fun l₁ fd l₂ => P (l ++ l₁) fd l₂) l') : ClosesWhen P (l ++ l') := by
  intro l₁ fd l₂ hl
  rcases List.append_eq_append_iff.mp hl with ⟨middle, rfl, hl'⟩ | ⟨rest, rfl, hrest⟩
  · exact h' middle fd l₂ hl'
  · cases rest with
    | nil => simpa using h' [] fd l₂ (by simpa using hrest.symm)
    | cons e rest =>
      injection hrest with hhead hrest
      subst hhead hrest
      exact h l₁ fd rest rfl

theorem mono (h : ClosesWhen P l) (hPQ : ∀ l₁ fd l₂, P l₁ fd l₂ → Q l₁ fd l₂) :
    ClosesWhen Q l := fun l₁ fd l₂ hl => hPQ l₁ fd l₂ (h l₁ fd l₂ hl)

theorem closes {readEnd : Option Descriptor} (h : ∀ fd, readEnd = some fd → P [] fd []) :
    ClosesWhen P (closes readEnd) := by
  cases readEnd with
  | none => exact of_notMem (by simp [Pipeline.closes])
  | some fd => exact single (h fd rfl)

end ClosesWhen

/-- The only attempt that does not reach the system is one with a null character. -/
theorem attempted_attempt {setting : Setting} {invocation : Invocation} {ok : Bool}
    {a : List Event} (h : Group.Attempt setting invocation ok a) :
    attempted a = [invocation.argv] ∨
      ok = false ∧ attempted a = [] ∧ invocation.argv.any Machine.hasNull = true := by
  have hflushed : ∀ m : Machine, attempted m.flushed = [] := by
    intro m
    rw [attempted, List.filterMap_eq_nil_iff]
    intro e he
    obtain ⟨text, rfl⟩ := Machine.mem_flushed he
    rfl
  have hnotices : ∀ event, attempted (setting.notices event) = [] := by
    intro event
    rw [attempted, List.filterMap_eq_nil_iff]
    intro e he
    rw [Setting.mem_notices he]
  cases h with
  | refused m hnull => exact .inr ⟨rfl, hflushed m, hnull⟩
  | failed m =>
    rw [attempted_append, hflushed]
    exact .inl rfl
  | running _ m pid message =>
    refine .inl ?_
    rw [attempted_append, hflushed, List.nil_append]
    show invocation.argv :: attempted (setting.notices _) = [invocation.argv]
    rw [hnotices]

theorem pipes_attempt {setting : Setting} {invocation : Invocation} {ok : Bool}
    {a : List Event} (h : Group.Attempt setting invocation ok a) : pipes a = [] :=
  List.filterMap_eq_nil_iff.mpr <| h.forall_mem (fun _ => rfl) (fun _ => rfl) (fun _ => rfl) rfl
    fun _ => rfl

theorem close_notMem_attempt {setting : Setting} {invocation : Invocation} {ok : Bool}
    {a : List Event} (h : Group.Attempt setting invocation ok a) (fd : Descriptor) :
    Event.close fd ∉ a := by
  have hne : ∀ e ∈ a, e ≠ Event.close fd := h.forall_mem (by simp) (by simp) (by simp) (by simp)
    (by simp)
  exact fun hmem => hne _ hmem rfl

/-! ## While the stages are started -/

theorem attempted_stage (readEnd : Option Descriptor) (n : Descriptor) (a l : List Event) :
    attempted (.pipe n (n + 1) :: (a ++ (closes readEnd ++ .close (n + 1) :: l)))
      = attempted a ++ attempted l := by
  have hcloses := (abandoned_closes readEnd).1
  have hpipe : ∀ l, attempted (.pipe n (n + 1) :: l) = attempted l := fun _ => rfl
  have hclose : ∀ l, attempted (.close (n + 1) :: l) = attempted l := fun _ => rfl
  rw [hpipe, attempted_append, attempted_append, hclose, hcloses, List.nil_append]

theorem pipes_stage (readEnd : Option Descriptor) (n : Descriptor) {a : List Event}
    (ha : pipes a = []) (l : List Event) :
    pipes (.pipe n (n + 1) :: (a ++ (closes readEnd ++ .close (n + 1) :: l)))
      = (n, n + 1) :: pipes l := by
  have hcloses := (abandoned_closes readEnd).2
  have hpipe : ∀ l, pipes (.pipe n (n + 1) :: l) = (n, n + 1) :: pipes l := fun _ => rfl
  have hclose : ∀ l, pipes (.close (n + 1) :: l) = pipes l := fun _ => rfl
  rw [hpipe, pipes_append, pipes_append, hclose, hcloses, ha, List.nil_append, List.nil_append]

namespace StartTrace

variable {setting : Setting} {readEnd : Option Descriptor} {n : Int}
  {stages : List Invocation} {ok : Bool} {l : List Event}

/-- The starts that are attempted are those of the first stages. -/
theorem attempted_isPrefix (h : StartTrace setting readEnd n stages ok l) :
    attempted l <+: stages.map Invocation.argv := by
  have hfirst : ∀ {invocation : Invocation} {ok : Bool} {a : List Event} (rest : List Invocation),
      Group.Attempt setting invocation ok a →
      attempted a <+: invocation.argv :: rest.map Invocation.argv := by
    intro invocation ok a rest ha
    rcases attempted_attempt ha with hone | ⟨-, hnone, -⟩
    · rw [hone]
      exact ⟨_, rfl⟩
    · rw [hnone]
      exact List.nil_prefix
  induction h with
  | @done readEnd =>
    rw [(abandoned_closes readEnd).1]
    exact List.nil_prefix
  | @noPipe readEnd =>
    have hnone : attempted (.pipeFailed :: closes readEnd) = [] := (abandoned_closes readEnd).1
    rw [hnone]
    exact List.nil_prefix
  | @last readEnd n stage ok a ha =>
    rw [attempted_append, (abandoned_closes readEnd).1, List.append_nil]
    have hattempted := hfirst [] ha
    exact hattempted
  | @stopped readEnd n stage rest a _ ha =>
    have hclose : attempted [.close n] = [] := rfl
    rw [attempted_stage, hclose, List.append_nil]
    have hattempted := hfirst rest ha
    exact hattempted
  | @started readEnd n stage rest a l ok _ ha _ ih =>
    rw [attempted_stage]
    rcases attempted_attempt ha with hone | ⟨⟨⟩, -⟩
    rw [hone, List.singleton_append, List.map_cons]
    exact List.cons_prefix_cons.mpr ⟨rfl, ih⟩

/-- The pipe behind the stage at a position is made of two descriptors known beforehand. -/
theorem getElem?_pipes (h : StartTrace setting readEnd n stages ok l) {i : Nat} {r w : Int}
    (hi : (pipes l)[i]? = some (r, w)) : r = n + 2 * i ∧ w = n + 2 * i + 1 := by
  induction h generalizing i with
  | @done readEnd =>
    rw [(abandoned_closes readEnd).2] at hi
    cases hi
  | @noPipe readEnd =>
    have hnone : pipes (.pipeFailed :: closes readEnd) = [] := (abandoned_closes readEnd).2
    rw [hnone] at hi
    cases hi
  | @last readEnd n stage ok a ha =>
    rw [pipes_append, (abandoned_closes readEnd).2, pipes_attempt ha] at hi
    cases hi
  | @stopped readEnd n stage rest a _ ha =>
    rw [pipes_stage readEnd n (pipes_attempt ha)] at hi
    cases i with
    | zero =>
      cases hi
      omega
    | succ i => cases hi
  | @started readEnd n stage rest a l ok _ ha _ ih =>
    rw [pipes_stage readEnd n (pipes_attempt ha)] at hi
    cases i with
    | zero =>
      cases hi
      omega
    | succ i =>
      have hlater := ih hi
      omega

/-- While stages are started, of which there are some, the read end in hand is closed when
    something has been attempted or nothing will be; the write end `n + 2 * i + 1` when the
    stage at `i` has been attempted; the read end `n + 2 * i` when the one after it has been
    attempted or nothing will be. -/
def InTime (readEnd : Option Descriptor) (n : Int) (stages : List Invocation) (ok : Bool)
    (l₁ : List Event) (fd : Int) (l₂ : List Event) : Prop :=
  (readEnd = some fd ∧ (0 < (attempted l₁).length ∨ ok = false ∧ Abandoned l₂)) ∨
  ∃ i : Nat,
    (fd = n + 2 * i + 1 ∧ (i < (attempted l₁).length ∨ (attempted l₁).length = i ∧
      ∃ stage, stages[i]? = some stage ∧ stage.argv.any Machine.hasNull = true)) ∨
    (fd = n + 2 * i ∧ (i + 1 < (attempted l₁).length ∨ ok = false ∧ Abandoned l₂))

/-- The stages behind count from the next one on, and the read end in hand is that of the pipe
    before them. -/
theorem InTime.later {readEnd : Option Descriptor} {n : Int} {stage : Invocation}
    {rest : List Invocation} {ok : Bool} {block l₁ l₂ : List Event} {fd : Int}
    (h : InTime (some n) (n + 2) rest ok l₁ fd l₂) (hblock : (attempted block).length = 1) :
    InTime readEnd n (stage :: rest) ok (block ++ l₁) fd l₂ := by
  have hlength : (attempted (block ++ l₁)).length = 1 + (attempted l₁).length := by
    rw [attempted_append, List.length_append, hblock]
  unfold InTime
  rw [hlength]
  rcases h with ⟨hfd, hwhen⟩ | ⟨i, ⟨hfd, hwhen⟩ | ⟨hfd, hwhen⟩⟩
  · cases hfd
    exact .inr ⟨0, .inr ⟨by simp, hwhen.imp_left fun hlt => by omega⟩⟩
  · refine .inr ⟨i + 1, .inl ⟨by omega, hwhen.imp (fun hlt => by omega) ?_⟩⟩
    rintro ⟨hlength, hnull⟩
    exact ⟨by omega, hnull⟩
  · exact .inr ⟨i + 1, .inr ⟨by omega, hwhen.imp_left fun hlt => by omega⟩⟩

theorem closes_inTime (h : StartTrace setting readEnd n stages ok l) (hstages : stages ≠ []) :
    ClosesWhen (InTime readEnd n stages ok) l := by
  have hblock : ∀ {n : Int} {invocation : Invocation} {ok : Bool} {a : List Event},
      Group.Attempt setting invocation ok a → ∀ fd, Event.close fd ∉ .pipe n (n + 1) :: a := by
    intro n invocation ok a ha fd
    simpa using close_notMem_attempt ha fd
  induction h with
  | done => exact absurd rfl hstages
  | @noPipe readEnd n stage rest =>
    refine ClosesWhen.append (l := [.pipeFailed]) (.of_notMem (by simp)) (.closes fun fd hfd => ?_)
    exact .inl ⟨hfd, .inr ⟨rfl, rfl, rfl⟩⟩
  | @last readEnd n stage ok a ha =>
    refine .append (.of_notMem (close_notMem_attempt ha)) (.closes fun fd hfd => ?_)
    refine .inl ⟨hfd, ?_⟩
    rw [List.append_nil]
    rcases attempted_attempt ha with hone | ⟨hok, hnone, -⟩
    · exact .inl (by simp [hone])
    · exact .inr ⟨hok, rfl, rfl⟩
  | @stopped readEnd n stage rest a _ ha =>
    have hattempted : attempted (.pipe n (n + 1) :: a) = attempted a := rfl
    show ClosesWhen _ ((.pipe n (n + 1) :: a) ++ (closes readEnd ++
      ([.close (n + 1)] ++ [.close n])))
    refine .append (.of_notMem (hblock ha)) (.append (.closes fun fd hfd => ?_)
      (.append (.single ?_) (.single ?_)))
    · exact .inl ⟨hfd, .inr ⟨rfl, rfl, rfl⟩⟩
    · -- The write end: the start was attempted, unless a null character has kept it back.
      refine .inr ⟨0, .inl ⟨by simp, ?_⟩⟩
      rw [attempted_append, hattempted, List.append_nil, (abandoned_closes readEnd).1,
        List.append_nil]
      rcases attempted_attempt ha with hone | ⟨-, hnone, hnull⟩
      · exact .inl (by simp [hone])
      · exact .inr ⟨by simp [hnone], stage, rfl, hnull⟩
    · exact .inr ⟨0, .inr ⟨by simp, .inr ⟨rfl, rfl, rfl⟩⟩⟩
  | @started readEnd n stage rest a l ok hrest ha _ ih =>
    have hone : (attempted (.pipe n (n + 1) :: a)).length = 1 := by
      rcases attempted_attempt ha with hone | ⟨⟨⟩, -⟩
      exact congrArg List.length hone
    have hcloses : attempted (closes readEnd) = [] := (abandoned_closes readEnd).1
    have hclose : attempted [.close (n + 1)] = [] := rfl
    show ClosesWhen _ ((.pipe n (n + 1) :: a) ++ (closes readEnd ++ ([.close (n + 1)] ++ l)))
    refine .append (.of_notMem (hblock ha)) (.append (.closes fun fd hfd => ?_)
      (.append (.single ?_) ((ih hrest).mono fun l₁ fd l₂ hfd => ?_)))
    · exact .inl ⟨hfd, .inl (by simp [hone])⟩
    · refine .inr ⟨0, .inl ⟨by simp, .inl ?_⟩⟩
      rw [attempted_append, List.append_nil, hcloses, List.append_nil, hone]
      exact Nat.zero_lt_one
    · have hblock : (attempted ((.pipe n (n + 1) :: a) ++
          (closes readEnd ++ [.close (n + 1)]))).length = 1 := by
        simp only [attempted_append, hcloses, hclose, List.append_nil, hone]
      have hlater : InTime readEnd n (stage :: rest) ok (((.pipe n (n + 1) :: a) ++
          (closes readEnd ++ [.close (n + 1)])) ++ l₁) fd l₂ := hfd.later hblock
      simpa only [List.append_assoc] using hlater

/-- Nobody is waited for or terminated while the stages are started. -/
theorem not_isReaping (h : StartTrace setting readEnd n stages ok l) :
    ∀ e ∈ l, e.isReaping = false := by
  refine h.forall_mem (fun _ _ _ _ _ _ _ ha => ?_) (fun _ _ => rfl) rfl fun _ => rfl
  exact ha.forall_mem (fun _ => rfl) (fun _ => rfl) (fun _ => rfl) rfl fun _ => rfl

section Tended

variable {tending l₁ l₂ : List Event} {i : Nat} {r w : Int}
  (h : StartTrace setting none n stages ok l) (htending : ∀ e ∈ tending, e.isTending = true)

include h htending

/-- Every end is closed while the stages are started, and all that tends them lies behind it. -/
theorem closes_inTime_append : ClosesWhen (fun l₁ fd l₂ => ∃ l₂', l₂ = l₂' ++ tending ∧
    InTime none n stages ok l₁ fd l₂') (l ++ tending) := by
  have hopen : ∀ fd, Event.close fd ∉ tending := fun fd hmem => by
    have hfalse := htending _ hmem
    cases hfalse
  refine .append ?_ (.of_notMem hopen)
  cases stages with
  | nil =>
    cases h
    exact .of_notMem (by simp [closes])
  | cons first rest =>
    have hinTime := h.closes_inTime (List.cons_ne_nil first rest)
    exact hinTime.mono fun l₁ fd l₂ h => ⟨l₂, rfl, h⟩

/-- The pipe at a position, seen from the whole. -/
theorem getElem?_pipes_append (hpipe : (pipes (l ++ tending))[i]? = some (r, w)) :
    r = n + 2 * i ∧ w = n + 2 * i + 1 := by
  rw [pipes_append, (abandoned_of_tending htending).2, List.append_nil] at hpipe
  exact h.getElem?_pipes hpipe

-- In both lemmas the number of the end tells which pipe it is of and which of its ends it is.

theorem close_writeEnd (hpipe : (pipes (l ++ tending))[i]? = some (r, w))
    (hl : l ++ tending = l₁ ++ .close w :: l₂) :
    i < (attempted l₁).length ∨ (attempted l₁).length = i ∧
      ∃ stage, stages[i]? = some stage ∧ stage.argv.any Machine.hasNull = true := by
  obtain ⟨-, hw⟩ := h.getElem?_pipes_append htending hpipe
  obtain ⟨l₂', rfl, ⟨⟨⟩, -⟩ | ⟨j, ⟨hfd, hwhen⟩ | ⟨hfd, -⟩⟩⟩ :=
    h.closes_inTime_append htending l₁ w l₂ hl
  · have hj : j = i := by omega
    rw [← hj]
    exact hwhen
  · omega

theorem close_readEnd (hpipe : (pipes (l ++ tending))[i]? = some (r, w))
    (hl : l ++ tending = l₁ ++ .close r :: l₂) :
    i + 1 < (attempted l₁).length ∨ ok = false ∧ Abandoned l₂ := by
  obtain ⟨hr, -⟩ := h.getElem?_pipes_append htending hpipe
  obtain ⟨l₂', rfl, ⟨⟨⟩, -⟩ | ⟨j, ⟨hfd, -⟩ | ⟨hfd, hwhen⟩⟩⟩ :=
    h.closes_inTime_append htending l₁ r l₂ hl
  · omega
  · have hj : j = i := by omega
    rw [← hj]
    apply hwhen.imp_right
    rintro ⟨hok, hattempted, hpipes⟩
    obtain ⟨hattempted', hpipes'⟩ := abandoned_of_tending htending
    refine ⟨hok, ?_, ?_⟩
    · rw [attempted_append, hattempted, hattempted', List.append_nil]
    · rw [pipes_append, hpipes, hpipes', List.append_nil]

end Tended

end StartTrace

/-! ## Whole pipelines -/

/-- The order in which a pipeline starts its stages and closes the ends of its pipes. -/
structure Orderly (stages : List (List String)) (r : Result Machine Unit) : Prop where
  /-- The starts that are attempted are those of the first stages, in order. -/
  attempts : attempted r.events <+: stages
  /-- All ends are closed before anybody is terminated or waited for. -/
  closesFirst : ∀ l₁ e l₂, r.events = l₁ ++ e :: l₂ → e.isReaping = true →
    ∀ fd, Event.close fd ∉ l₂
  /-- The write end of a pipe outlives the attempt to start the stage before the pipe, also
      one that is refused for a null character before it reaches the system. -/
  writeEnd : ∀ i readEnd writeEnd, (pipes r.events)[i]? = some (readEnd, writeEnd) →
    ∀ l₁ l₂, r.events = l₁ ++ .close writeEnd :: l₂ →
      i < (attempted l₁).length ∨
        (attempted l₁).length = i ∧ ∃ stage, stages[i]? = some stage ∧ stage.any Machine.hasNull
  /-- The read end outlives the attempt to start the stage behind the pipe, unless the
      pipeline has been abandoned by then. -/
  readEnd : ∀ i readEnd writeEnd, (pipes r.events)[i]? = some (readEnd, writeEnd) →
    ∀ l₁ l₂, r.events = l₁ ++ .close readEnd :: l₂ →
      i + 1 < (attempted l₁).length ∨ Abandoned l₂ ∧ ∃ f, r.outcome = .error f

theorem run_orderly (setting : Setting) (stages : List (List String)) (host : Host)
    (m : Machine) : Orderly stages (run setting stages host m) := by
  rcases events_run setting stages host m with
    hrun | ⟨invocations, ok, starts, tending, hstages, hevents, hstarts, htending, hfailed⟩
  · rw [hrun]
    exact ⟨List.nil_prefix, by simp, by simp, by simp⟩
  · obtain ⟨hargv, -⟩ := of_mapM_ofWords hstages
    refine ⟨?_, ?_, ?_, ?_⟩
    · rw [hevents, attempted_append, (abandoned_of_tending htending).1, List.append_nil, ← hargv]
      exact hstarts.attempted_isPrefix
    · -- A wait or a termination is in the tending part, where nothing is closed.
      intro l₁ e l₂ hl he fd hmem
      rw [hevents] at hl
      have hnotStarts : e ∉ starts := fun hstart => by
        have hfalse := hstarts.not_isReaping e hstart
        rw [he] at hfalse
        cases hfalse
      obtain ⟨middle, -, hrest⟩ := exists_eq_append_of_notMem starts hnotStarts hl
      have hfalse := htending (.close fd) (by simp [hrest, hmem])
      cases hfalse
    · intro i readEnd writeEnd hpipe l₁ l₂ hl
      rw [hevents] at hpipe hl
      apply (hstarts.close_writeEnd htending hpipe hl).imp_right
      rintro ⟨hlength, stage, hstage, hnull⟩
      refine ⟨hlength, stage.argv, ?_, hnull⟩
      rw [← hargv, List.getElem?_map, hstage]
      rfl
    · intro i readEnd writeEnd hpipe l₁ l₂ hl
      rw [hevents] at hpipe hl
      apply (hstarts.close_readEnd htending hpipe hl).imp_right
      rintro ⟨hok, habandoned⟩
      exact ⟨habandoned, hfailed hok⟩

end Pipeline

end LineShell
