/-
  LineShell.Proofs.Shell.Fulfils

  Contracts that everything a shell does meets.

  A conditional catches failures of the shell, reports them and raises the last of
  them again.  A contract that tolerates this is met by a tree as soon as the
  leaves of the tree meet it (`runTree_meets`).  If the handlers of the shell and
  the programs it starts meet it too, then so does every script, however deep
  scripts dispatch lines inside of each other (`Fulfils.interpreter`).
-/

import LineShell.Proofs.Action.Meets
import LineShell.Proofs.Tree.Leaves
import LineShell.Shell.Basic

namespace LineShell

/-- A sequential contract that lets failures of the shell be caught, raised and reported. -/
structure Contract.Tolerant (C : Contract Session) : Prop extends C.Sequential where
  caught : ∀ {s l f s'}, f.isShell = true → C s l (some f) s' → C s l none s'
  raised : ∀ s {f}, f.isShell = true → C s [] (some f) s
  log : ∀ s source message, C s [.log source message] none s

theorem Table.mem_entries_of_find? {α : Type} {t : Table α} {name : String} {a : α}
    (h : t.find? name = some a) : (name, a) ∈ t.entries := by
  obtain ⟨before, after, hentries, -⟩ := List.lookup_eq_some_iff.mp h
  simp [hentries]

namespace Shell

variable {shell : Shell} {host : Host} {C : Contract Session} {interpret : Interpreter}

/-! ## Trees -/

/-- A failure of the shell is caught, and no other. -/
theorem attemptShell_apply (x : Action Session Unit) (host : Host) (s : Session) :
    attemptShell x host s =
      ⟨match (x host s).outcome with
        | .ok () => .ok none
        | .error f => if f.isShell then .ok (some f) else .error f,
        (x host s).state, (x host s).events⟩ := by
  simp only [attemptShell, Action.bind_apply, Action.attempt_apply, Result.andThen_ok]
  generalize x host s = r
  obtain ⟨outcome | _, s', l⟩ := r
  · cases hf : outcome.isShell <;> simp [hf]
  · simp

theorem attemptShell_meets (hC : C.Tolerant) {x : Action Session Unit} (hx : x.Meets host C) :
    (attemptShell x).Meets host C := by
  intro s
  have hrun := hx s
  rw [attemptShell_apply]
  generalize x host s = r at hrun
  obtain ⟨outcome, s', l⟩ := r
  cases outcome with
  | ok => exact hrun
  -- A failure of the shell is given back as a value, any other goes on.
  | error f =>
    by_cases hf : f.isShell = true
    · simpa [hf] using hC.caught hf hrun
    · simpa [hf] using hrun

/-- Only failures of the shell are caught. -/
theorem isShell_of_attemptShell {x : Action Session Unit} {s : Session} {f : Failure}
    (h : (attemptShell x host s).outcome = .ok (some f)) : f.isShell = true := by
  rw [attemptShell_apply] at h
  split at h
  · cases h
  · split at h
    · next hf =>
      cases h
      exact hf
    · cases h

theorem isShell_of_runAlternatives {group : List Tree} {failure : Option Failure} {s : Session}
    {f : Failure} (hfailure : ∀ f, failure = some f → f.isShell = true)
    (h : (runAlternatives shell interpret failure group host s).outcome = .ok (some f)) :
    f.isShell = true := by
  induction group generalizing failure s with
  | nil =>
    rw [runAlternatives] at h
    exact hfailure f (Except.ok.inj h)
  | cons alternative rest ih =>
    rw [runAlternatives, Action.bind_apply] at h
    have hcaught : ∀ f, (attemptShell (runTree shell interpret alternative) host s).outcome
        = .ok (some f) → f.isShell = true := fun f => isShell_of_attemptShell
    generalize attemptShell (runTree shell interpret alternative) host s = r at h hcaught
    obtain ⟨outcome, s', l⟩ := r
    cases outcome with
    | error f' => cases h
    | ok caught =>
      cases caught with
      | none => cases h
      | some f' =>
        have hshell : ∀ f, some f' = some f → f.isShell = true := by
          rintro _ ⟨⟩
          exact hcaught f' rfl
        exact ih hshell h

mutual

/-- A tree whose leaves meet a contract meets it. -/
theorem runTree_meets (hC : C.Tolerant) (t : Tree)
    (hleaves : ∀ leaf ∈ t.leaves, (runTree shell interpret leaf).Meets host C) :
    (runTree shell interpret t).Meets host C := by
  match t with
  | .command text words => exact hleaves _ (by simp [Tree.leaves])
  | .redirect source mode target => exact hleaves _ (by simp [Tree.leaves])
  | .pipeline stages => exact hleaves _ (by simp [Tree.leaves])
  | .conditional groups =>
    rw [runTree]
    exact runGroups_meets hC 0 groups hleaves

theorem runGroups_meets (hC : C.Tolerant) (index : Nat) (groups : List (List Tree))
    (hleaves : ∀ leaf ∈ Tree.leavesOfGroups groups,
      (runTree shell interpret leaf).Meets host C) :
    (runGroups shell interpret index groups).Meets host C := by
  match groups with
  | [] =>
    rw [runGroups]
    exact .pure hC.toSequential ()
  | group :: rest =>
    simp only [Tree.leavesOfGroups, List.forall_mem_append] at hleaves
    rw [runGroups]
    refine .bind_of_ok hC.toSequential (runAlternatives_meets hC none group hleaves.1)
      fun failure s hs => ?_
    cases failure with
    | none => exact runGroups_meets hC (index + 1) rest hleaves.2
    -- What has been caught is of the shell, so that it may be raised again.
    | some f =>
      have hf : f.isShell = true := isShell_of_runAlternatives (by simp) hs
      show Action.Meets host C (if rest.isEmpty then .fail f else .log _ _)
      split
      · exact fun s => hC.raised s hf
      · exact fun s => hC.log s _ _

theorem runAlternatives_meets (hC : C.Tolerant) (failure : Option Failure) (group : List Tree)
    (hleaves : ∀ leaf ∈ Tree.leavesOfGroup group,
      (runTree shell interpret leaf).Meets host C) :
    (runAlternatives shell interpret failure group).Meets host C := by
  match group with
  | [] =>
    rw [runAlternatives]
    exact .pure hC.toSequential failure
  | alternative :: rest =>
    simp only [Tree.leavesOfGroup, List.forall_mem_append] at hleaves
    rw [runAlternatives]
    refine .bind hC.toSequential
      (attemptShell_meets hC (runTree_meets hC alternative hleaves.1)) fun caught => ?_
    cases caught with
    | none => exact .pure hC.toSequential none
    | some f => exact runAlternatives_meets hC (some f) rest hleaves.2

end

/-! ## Lines and scripts -/

/-- Dispatching a line is reported, and runs its tree with the interrupt key exposed. -/
theorem execute_apply (shell : Shell) (line : String) (host : Host) (s : Session) :
    shell.execute line host s =
      (Governor.exposed shell.policy (shell.run (Tree.parse line)) host s).after
        [.log .dispatch s!"dispatch {(Tree.parse line).kindName}: {Text.quoted line}"] := rfl

/-- Some command of the shell dispatches lines itself. -/
def Redispatches (shell : Shell) : Prop :=
  ∃ name actions line, shell.commands.find? name = some (.script actions) ∧
    ScriptAction.execute line ∈ actions

/-- Met by all that the shell does, scripts aside. -/
structure Fulfils (shell : Shell) (host : Host) (C : Contract Session) : Prop
    extends C.Tolerant where
  failed : ∀ s f, C s [] (some f) s
  call : ∀ s name args text, C s [.call name args text] none s
  writeLine : ∀ text, (shell.setting.writeLine text).inSession.Meets host C
  print : ∀ text, (shell.setting.print text).inSession.Meets host C
  builtin : ∀ (command : Builtin) args text,
    (command.run shell.setting args text).inSession.Meets host C
  foreground : ∀ program args,
    (Group.foreground shell.setting { program, args }).inSession.Meets host C
  redirect : ∀ source mode target,
    (Redirect.run shell.setting source mode target).inSession.Meets host C
  pipeline : ∀ stages, (Pipeline.run shell.setting stages).inSession.Meets host C
  /-- Asked for only where a script dispatches lines. -/
  exposed : shell.Redispatches → ∀ {body : Action Session Unit}, body.Meets host C →
    (Governor.exposed shell.policy body).Meets host C

namespace Fulfils

variable (h : shell.Fulfils host C)

include h

section Scripts

variable (hinterpret : ∀ handler name args text, shell.commands.find? name = some handler →
  (interpret handler name args text).Meets host C)

include hinterpret

theorem runTree (t : Tree) : (Shell.runTree shell interpret t).Meets host C := by
  refine runTree_meets h.toTolerant t fun leaf hleaf => ?_
  cases leaf with
  | command text words =>
    rw [Shell.runTree]
    cases words with
    | nil => exact .pure h.toSequential ()
    | cons name args =>
      rw [runCommand]
      split
      · next handler hhandler => exact hinterpret handler name args text hhandler
      · exact h.foreground name args
  | redirect source mode target =>
    rw [Shell.runTree]
    exact h.redirect source mode target
  | pipeline stages =>
    rw [Shell.runTree]
    exact h.pipeline stages
  | conditional groups => exact absurd hleaf (Tree.conditional_notMem_leaves t groups)

theorem performAll (actions : List ScriptAction)
    (hactions : ∀ line, .execute line ∈ actions → shell.Redispatches) :
    (Shell.performAll shell interpret actions).Meets host C := by
  induction actions with
  | nil => exact .pure h.toSequential ()
  | cons action rest ih =>
    have ih := ih fun line hline => hactions line (List.mem_cons_of_mem _ hline)
    refine .bind h.toSequential ?_ fun _ => ih
    cases action with
    | writeLine text => exact h.writeLine text
    | print text => exact h.print text
    | execute line =>
      have hredispatches := hactions line List.mem_cons_self
      exact .bind h.toSequential (fun s => h.log s _ _) fun _ =>
        h.exposed hredispatches (h.runTree hinterpret (Tree.parse line))
    | runLine line => exact h.runTree hinterpret (Tree.parse line)
    | raise f => exact fun s => h.failed s f

end Scripts

/-- What a command of the shell stands for, however many scripts may still be under way. -/
theorem interpreter (depth : Nat) (handler : Handler) (name : String) (args : List String)
    (text : String) (hhandler : shell.commands.find? name = some handler) :
    (Shell.interpreter shell depth handler name args text).Meets host C := by
  -- A script runs its trees with one script less that may be under way, so the induction is on
  -- how many still may.
  induction depth generalizing handler name args text with
  | zero =>
    cases handler with
    | builtin command => exact h.builtin command args text
    | script actions => exact fun s => h.failed s tooDeep
  | succ depth ih =>
    cases handler with
    | builtin command => exact h.builtin command args text
    | script actions =>
      refine .bind h.toSequential (fun s => h.call s name args text) fun _ => ?_
      exact h.performAll ih actions fun line hline => ⟨name, actions, line, hhandler, hline⟩

theorem run (t : Tree) : (Shell.run shell t).Meets host C :=
  h.runTree (h.interpreter maxDepth) t

end Fulfils

end Shell

end LineShell
