/-
  LineShell.Proofs.Shell.Chain

  What a chain of command lines means.

  The groups of a chain are gone through in order.  A group passes with the
  first of its alternatives that does, and a group without alternatives passes.
  Where all alternatives of a group fail, the last failure is that of the chain
  if the group is the last one; otherwise the chain ends there without a failure.
  Only failures of the shell count as such; anything else ends the chain at once.

  Dispatching the line that the groups are put together to does this, up to
  diagnostics (`execute_chainText`), also where the line is no conditional at
  all because there is nothing to put together.
-/

import LineShell.Proofs.Action.Similar
import LineShell.Proofs.Tree.WellFormed
import LineShell.Shell.Basic

namespace LineShell.Shell

open Text

/-- What has become of a group. -/
inductive Verdict
  | passed
  | failed (failure : Failure)

/-- Runs the lines of a group up to the first that passes. -/
def runChainGroup (shell : Shell) : List String → Action Session Verdict
  | [] => pure .passed
  | line :: rest => do
    match ← (shell.run (Tree.parse line)).attempt with
    | .ok () => pure .passed
    | .error f =>
      if !f.isShell then .fail f
      else if rest.isEmpty then pure (.failed f)
      else runChainGroup shell rest

/-- Runs groups up to the first that fails. -/
def runChain (shell : Shell) : List (List String) → Action Session Unit
  | [] => pure ()
  | group :: rest => do
    match ← runChainGroup shell group with
    | .passed => runChain shell rest
    | .failed f => if rest.isEmpty then .fail f else pure ()

/-- The failure that a group leaves behind. -/
def Verdict.failure? : Verdict → Option Failure
  | passed => none
  | failed f => some f

/-- The alternatives of a group in a tree.  The failure of an earlier alternative is
    forgotten as soon as there is another one. -/
theorem runAlternatives_map_parse (shell : Shell) (group : List String) :
    shell.runAlternatives (shell.interpreter maxDepth) none (group.map Tree.parse)
      = Verdict.failure? <$> shell.runChainGroup group := by
  have hforget : ∀ (first second : Option Failure) (t : Tree) (ts : List Tree),
      shell.runAlternatives (shell.interpreter maxDepth) first (t :: ts)
        = shell.runAlternatives (shell.interpreter maxDepth) second (t :: ts) := by
    intro first second t ts
    rw [runAlternatives, runAlternatives]
  induction group with
  | nil => rfl
  | cons line rest ih =>
    ext host s
    simp only [List.map_cons, runAlternatives, runChainGroup, attemptShell, run, Action.bind_apply,
      Action.map_apply, Action.attempt_apply, Result.andThen_ok]
    -- Both sides run the line first; then its outcome says how they go on.
    cases hr : shell.runTree (shell.interpreter maxDepth) (Tree.parse line) host s with
    | mk outcome s' l =>
    cases outcome with
    | ok u => rfl
    | error f =>
      cases hf : f.isShell with
      | false => simp [hf]
      | true =>
        cases rest with
        | nil => simp [hf, runAlternatives, Verdict.failure?]
        | cons next rest =>
          have ih' := congrFun (congrFun ih host) s'
          rw [List.map_cons, hforget none (some f)] at ih'
          simp [hf, ih']

/-- The groups of a tree, wherever they are counted from. -/
theorem runGroups_map_parse (shell : Shell) (index : Nat) (groups : List (List String)) :
    (shell.runGroups (shell.interpreter maxDepth) index (groups.map (·.map Tree.parse))).Similar
      (shell.runChain groups) := by
  induction groups generalizing index with
  | nil => exact Action.Similar.refl _
  | cons group rest ih =>
    rw [List.map_cons, runGroups, runChain, runAlternatives_map_parse, bind_map_left]
    refine Action.Similar.bind (Action.Similar.refl _) fun verdict => ?_
    cases verdict with
    | passed => exact ih (index + 1)
    -- The last group hands its failure on; an earlier one ends the chain with a line of
    -- diagnostics, which the reference does not write.
    | failed f =>
      simp only [Verdict.failure?, List.isEmpty_map]
      split
      · exact Action.Similar.refl _
      · exact Action.Similar.log _ _

/-- A line that is alone in its chain decides the outcome, whatever its failure is. -/
theorem runChain_singleton (shell : Shell) (line : String) :
    shell.runChain [[line]] = shell.run (Tree.parse line) := by
  ext host s
  simp only [runChain, runChainGroup, Action.bind_apply, Action.attempt_apply, Result.andThen_ok]
  cases hr : shell.run (Tree.parse line) host s with
  | mk outcome s' l =>
    cases outcome with
    | ok u => simp
    | error f => cases hf : f.isShell <;> simp [hf]

/-- The tree of the line that groups are put together to. -/
theorem run_parse_chainText (shell : Shell) {groups : List (List String)} (hne : groups ≠ [])
    (h : ∀ group ∈ groups, ∀ a ∈ group,
      trim a ≠ "" ∧ ¬ Contains a "&&" ∧ ¬ Contains a "||") :
    (shell.run (Tree.parse (Tree.chainText groups))).Similar (shell.runChain groups) := by
  have halternative : ∀ group ∈ groups, ∀ a ∈ group, Tree.IsAlternative a := by
    intro group hgroup a ha
    obtain ⟨-, hand, hor⟩ := h group hgroup a ha
    rw [contains_and_iff, Bool.not_eq_true] at hand
    rw [contains_or_iff, Bool.not_eq_true] at hor
    exact ⟨hand, hor⟩
  -- The line holds an operator exactly if there are two groups or a group of two.
  by_cases hlong : 2 ≤ groups.length ∨ ∃ group ∈ groups, 2 ≤ group.length
  · have hkeep : ∀ group ∈ groups, (group.filter fun a => !(trim a).isEmpty) = group := by
      intro group hgroup
      rw [List.filter_eq_self]
      intro a ha
      simpa using (h group hgroup a ha).1
    have htree : Tree.parse (Tree.chainText groups)
        = .conditional (groups.map (·.map Tree.parse)) := by
      rw [Tree.parse_chainText halternative hlong]
      congr 1
      exact List.map_congr_left fun group hgroup => by rw [hkeep group hgroup]
    rw [htree, run, runTree]
    exact runGroups_map_parse shell 0 groups
  · -- One group of at most one alternative: the line is that alternative, or empty.
    rw [not_or, not_exists] at hlong
    obtain ⟨group, rest, rfl⟩ := List.exists_cons_of_ne_nil hne
    have hrest : rest = [] := List.eq_nil_of_length_eq_zero (by simpa using hlong.1)
    subst hrest
    have hshort : group.length < 2 := by simpa using hlong.2 group
    match group, hshort with
    | [], _ => exact Action.Similar.refl _
    | [line], _ =>
      rw [runChain_singleton]
      have htext : Tree.chainText [[line]] = line := by simp [Tree.chainText]
      rw [htext]
      exact Action.Similar.refl _

/-- Dispatching the line that groups are put together to goes through the groups with the
    interrupt key exposed, but for diagnostics. -/
theorem execute_chainText (shell : Shell) (groups : List (List String)) (hne : groups ≠ [])
    (h : ∀ group ∈ groups, ∀ a ∈ group,
      trim a ≠ "" ∧ ¬ Contains a "&&" ∧ ¬ Contains a "||") :
    (shell.execute (Tree.chainText groups)).Similar
      (Governor.exposed shell.policy (shell.runChain groups)) := by
  have hrun := run_parse_chainText shell hne h
  apply Action.Similar.trans (Action.Similar.log_bind _ _ _)
  exact Action.Similar.bind (Action.Similar.refl _) fun _ => Action.Similar.ensuring hrun

/-- A chain whose parts begin or end in halves of operators, with an empty group. -/
theorem execute_chainText_halves :
    let groups : List (List String) := [["a |", "& b"], [], ["| c &"]]
    Tree.chainText groups = "a | || & b &&  && | c &" ∧
      (∀ group ∈ groups, ∀ a ∈ group, trim a ≠ "" ∧ ¬ Contains a "&&" ∧ ¬ Contains a "||") ∧
      (execute {} (Tree.chainText groups)).Similar
        (Governor.exposed {} (runChain {} groups)) := by
  intro groups
  have h : ∀ group ∈ groups, ∀ a ∈ group,
      trim a ≠ "" ∧ ¬ Contains a "&&" ∧ ¬ Contains a "||" := by decide
  exact ⟨by decide, h, execute_chainText {} groups (by decide) h⟩

end LineShell.Shell
