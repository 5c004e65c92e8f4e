/-
  LineShell.Proofs.Shell.Decisive

  Which part of a line a failure comes from.

  A conditional goes on behind a failure of the shell, unless it is that of the
  last alternative of its last group.  So a failure of the shell that comes out of a
  line is that of the one part of the line that decides, and this part has been run
  last (`runTree_fails`).
-/

import LineShell.Proofs.Shell.Fulfils

namespace LineShell

/-- The part of a line that decides whether the line fails with a failure of the shell. -/
def Tree.decisive? : Tree → Option Tree
  | .conditional groups => groups.getLast?.bind List.getLast?
  | t => some t

/-- What decides a line is read by the rules for parts, so that it is no conditional. -/
theorem Tree.of_decisive?_parse {line : String} {last : Tree}
    (h : (parse line).decisive? = some last) : ∃ part, last = ofPart part := by
  rw [parse] at h
  split at h
  · obtain ⟨group, hgroup, hlast⟩ := Option.bind_eq_some_iff.mp h
    obtain ⟨piece, -, rfl⟩ := List.mem_map.mp (List.mem_of_getLast? hgroup)
    obtain ⟨part, -, rfl⟩ := List.mem_map.mp (List.mem_of_getLast? hlast)
    exact ⟨part, rfl⟩
  · refine ⟨Text.trimBy Text.isBlank line.toList, ?_⟩
    cases hpart : ofPart (Text.trimBy Text.isBlank line.toList) with
    | conditional groups => exact absurd hpart (ofPart_ne_conditional _ groups)
    | _ =>
      rw [hpart] at h
      exact (Option.some.inj h).symm

namespace Shell

variable {shell : Shell} {interpret : Interpreter} {host : Host} {C : Contract Session}
  {f : Failure} {s : Session}

/-- The last that has happened in a run is that the tree failed, and nothing has come out of what
    has happened before. -/
def FailsLast (shell : Shell) (interpret : Interpreter) (host : Host) (C : Contract Session)
    (t : Tree) (f : Failure) (s : Session) (l : List Event) : Prop :=
  ∃ before s', C s before none s' ∧
    let ran := runTree shell interpret t host s'
    ran.outcome = .error f ∧ l = before ++ ran.events

theorem FailsLast.after {t : Tree} {first l : List Event} {s' : Session} (hC : C.Sequential)
    (hfirst : C s first none s') (h : FailsLast shell interpret host C t f s' l) :
    FailsLast shell interpret host C t f s (first ++ l) := by
  obtain ⟨before, s'', hbefore, houtcome, rfl⟩ := h
  refine ⟨first ++ before, s'', hC.append hfirst hbefore, houtcome, ?_⟩
  rw [List.append_assoc]

theorem FailsLast.self {t : Tree} (hC : C.Sequential)
    (h : (runTree shell interpret t host s).outcome = .error f) :
    FailsLast shell interpret host C t f s (runTree shell interpret t host s).events :=
  ⟨[], s, hC.nil s, h, rfl⟩

theorem isShell_of_runAlternatives_error {group : List Tree} {failure : Option Failure}
    (h : (runAlternatives shell interpret failure group host s).outcome = .error f) :
    f.isShell = false := by
  induction group generalizing failure s with
  | nil => cases h
  | cons alternative rest ih =>
    rw [runAlternatives] at h
    rcases Action.outcome_bind_eq_error.mp h with hfirst | ⟨caught, -, hrest⟩
    · rw [attemptShell_apply] at hfirst
      split at hfirst
      · cases hfirst
      · split at hfirst
        · cases hfirst
        · next hf =>
          cases hfirst
          exact Bool.eq_false_iff.mpr hf
    · cases caught with
      | none => cases hrest
      | some f' => exact ih hrest

section Conditionals

variable (hC : C.Tolerant) (hmeets : ∀ t, (runTree shell interpret t).Meets host C)

include hC hmeets

/-- A group that fails does so with its last alternative. -/
theorem runAlternatives_fails {alternative : Tree} {rest : List Tree} {failure : Option Failure}
    {s : Session}
    (h : (runAlternatives shell interpret failure (alternative :: rest) host s).outcome
      = .ok (some f)) :
    ∃ last, (alternative :: rest).getLast? = some last ∧
      FailsLast shell interpret host C last f s
        (runAlternatives shell interpret failure (alternative :: rest) host s).events := by
  have hrun := hmeets alternative s
  have hself : (runTree shell interpret alternative host s).outcome = .error f →
      FailsLast shell interpret host C alternative f s
        (runTree shell interpret alternative host s).events := .self hC.toSequential
  rw [runAlternatives, Action.bind_apply, attemptShell_apply] at h ⊢
  generalize runTree shell interpret alternative host s = r at h hrun hself
  obtain ⟨outcome, s', l⟩ := r
  cases outcome with
  | ok => cases h
  | error f' =>
    cases hf' : f'.isShell with
    | false =>
      simp only [hf'] at h
      cases h
    | true =>
      simp only [hf', if_true, Result.andThen_ok, Result.events_after] at h ⊢
      cases rest with
      | nil =>
        cases h
        rw [runAlternatives, Action.pure_apply, List.append_nil]
        exact ⟨alternative, rfl, hself rfl⟩
      -- Another alternative comes behind, so this failure has been caught.
      | cons next rest =>
        have hrest : (runAlternatives shell interpret (some f') (next :: rest) host s').outcome
            = .ok (some f) := h
        obtain ⟨last, hlast, hfails⟩ := runAlternatives_fails hrest
        refine ⟨last, ?_, hfails.after hC.toSequential (hC.caught hf' hrun)⟩
        rw [List.getLast?_cons, hlast, Option.getD_some]

/-- Groups that fail do so with the last of them. -/
theorem runGroups_fails {groups : List (List Tree)} {index : Nat} (hf : f.isShell = true)
    (h : (runGroups shell interpret index groups host s).outcome = .error f) :
    ∃ last, groups.getLast?.bind List.getLast? = some last ∧
      FailsLast shell interpret host C last f s
        (runGroups shell interpret index groups host s).events := by
  induction groups generalizing index s with
  | nil => cases h
  | cons group rest ih =>
    have hgroup := runAlternatives_meets hC none group (fun leaf _ => hmeets leaf) s
    rw [runGroups, Action.bind_apply] at h ⊢
    cases hran : runAlternatives shell interpret none group host s with
    | mk outcome s' l =>
    rw [hran] at h hgroup
    cases outcome with
    | error f' =>
      cases h
      have houtcome : (runAlternatives shell interpret none group host s).outcome = .error f := by
        rw [hran]
      rw [isShell_of_runAlternatives_error houtcome] at hf
      cases hf
    | ok failure =>
      cases failure with
      | none =>
        obtain ⟨last, hlast, hfails⟩ := ih h
        obtain ⟨lastGroup, hlastGroup, hlast⟩ := Option.bind_eq_some_iff.mp hlast
        refine ⟨last, ?_, hfails.after hC.toSequential hgroup⟩
        rw [List.getLast?_cons, hlastGroup]
        exact hlast
      -- The failure comes out only if no group is left.
      | some f' =>
        cases rest with
        | cons next rest => cases h
        | nil =>
          cases h
          cases group with
          | nil => cases hran
          | cons alternative group =>
            have hfails := runAlternatives_fails hC hmeets (by rw [hran])
            rw [hran] at hfails
            simpa using hfails

/-- A failure of the shell that comes out of a tree is that of the part that decides. -/
theorem runTree_fails {t : Tree} (hf : f.isShell = true)
    (h : (runTree shell interpret t host s).outcome = .error f) :
    ∃ last, t.decisive? = some last ∧
      FailsLast shell interpret host C last f s (runTree shell interpret t host s).events := by
  cases t with
  | conditional groups =>
    rw [runTree] at h ⊢
    exact runGroups_fails hC hmeets hf h
  | _ => exact ⟨_, rfl, .self hC.toSequential h⟩

end Conditionals

end Shell

end LineShell
