/-
  LineShell.Proofs.Event.Custody

  What events do with things that are acquired, used and given back.

  A custody says which things of a kind an event acquires, uses and releases.  A
  list of events is run from the things that are held before it: a thing may be
  acquired only while it is not held, and may be used and released only while it
  is.  A list that can be run from nothing to nothing releases each thing as often
  as it acquires it, never before, and uses it only in between.

  The shell has three kinds of things in custody: processes, which are started
  and waited for, the ends of pipes, and open files.
-/

import LineShell.Proofs.Action.Keeps
import Mathlib.Data.Finset.Lattice.Lemmas
import Mathlib.Data.Finset.SDiff
import Mathlib.Data.List.Nodup

namespace LineShell

/-- An event that does not occur in the first part of a list lies behind it. -/
theorem exists_eq_append_of_notMem (block : List Event) {l l₁ l₂ : List Event} {e : Event}
    (he : e ∉ block) (h : block ++ l = l₁ ++ e :: l₂) :
    ∃ middle, l₁ = block ++ middle ∧ l = middle ++ e :: l₂ := by
  rcases List.append_eq_append_iff.mp h with ⟨middle, h₁, h₂⟩ | ⟨rest, h₁, h₂⟩
  · exact ⟨middle, h₁, h₂⟩
  · cases rest with
    | nil => exact ⟨[], by simpa using h₁.symm, by simpa using h₂.symm⟩
    | cons e' rest =>
      injection h₂ with hhead _
      subst hhead
      exact absurd (by simp [h₁]) he

/-- What an event does with the things of a kind. -/
structure Custody (κ : Type) where
  acquires : Event → List κ
  uses : Event → List κ
  releases : Event → List κ

namespace Custody

variable {κ : Type} (c : Custody κ)

/-- The things acquired by events, in order. -/
def acquired (l : List Event) : List κ := l.flatMap c.acquires

/-- The things released by events, in order. -/
def released (l : List Event) : List κ := l.flatMap c.releases

/-- An event that has nothing to do with the things. -/
def Idle (e : Event) : Prop := c.acquires e = [] ∧ c.uses e = [] ∧ c.releases e = []

/-- An event that takes no thing and gives none back. -/
def Neutral (e : Event) : Prop := c.acquires e = [] ∧ c.releases e = []

theorem Idle.neutral {c : Custody κ} {e : Event} (h : c.Idle e) : c.Neutral e := ⟨h.1, h.2.2⟩

@[simp] theorem acquired_append (l₁ l₂ : List Event) :
    c.acquired (l₁ ++ l₂) = c.acquired l₁ ++ c.acquired l₂ := List.flatMap_append

@[simp] theorem released_append (l₁ l₂ : List Event) :
    c.released (l₁ ++ l₂) = c.released l₁ ++ c.released l₂ := List.flatMap_append

theorem acquired_eq_nil {l : List Event} (h : ∀ e ∈ l, c.acquires e = []) : c.acquired l = [] :=
  List.flatMap_eq_nil_iff.mpr h

theorem released_eq_nil {l : List Event} (h : ∀ e ∈ l, c.releases e = []) : c.released l = [] :=
  List.flatMap_eq_nil_iff.mpr h

variable [DecidableEq κ]

/-- Whether an event may come while the given things are held. -/
def Allows (held : Finset κ) (e : Event) : Prop :=
  (c.acquires e).Nodup ∧ (c.releases e).Nodup ∧ (∀ k ∈ c.acquires e, k ∉ held) ∧
    ∀ k ∈ c.uses e ++ c.releases e, k ∈ held

instance (held : Finset κ) (e : Event) : Decidable (c.Allows held e) :=
  inferInstanceAs (Decidable (_ ∧ _))

/-- The things that are held after an event, if it may come. -/
def step (held : Finset κ) (e : Event) : Option (Finset κ) :=
  if c.Allows held e then some ((held ∪ (c.acquires e).toFinset) \ (c.releases e).toFinset)
  else none

/-- The things that are held after events, if all of them may come. -/
def run (held : Finset κ) (l : List Event) : Option (Finset κ) := l.foldlM c.step held

/-! ## Steps -/

theorem step_eq_some_iff {held held' : Finset κ} {e : Event} :
    c.step held e = some held' ↔
      c.Allows held e ∧ (held ∪ (c.acquires e).toFinset) \ (c.releases e).toFinset = held' := by
  unfold step
  split <;> simp [*]

/-- An event that neither acquires nor releases leaves what is held as it is. -/
theorem step_of_uses {held : Finset κ} {e : Event} (hacquires : c.acquires e = [])
    (hreleases : c.releases e = []) (huses : ∀ k ∈ c.uses e, k ∈ held) :
    c.step held e = some held := by
  rw [step_eq_some_iff]
  refine ⟨⟨by simp [hacquires], by simp [hreleases], by simp [hacquires], ?_⟩,
    by simp [hacquires, hreleases]⟩
  rw [hreleases, List.append_nil]
  exact huses

/-- What one event does to the number of times that a thing is held. -/
theorem step_count {held held' : Finset κ} {e : Event} (h : c.step held e = some held') (k : κ) :
    (if k ∈ held then 1 else 0) + (c.acquires e).count k
      = (if k ∈ held' then 1 else 0) + (c.releases e).count k := by
  obtain ⟨⟨hacquires, hreleases, hfresh, hheld⟩, rfl⟩ := c.step_eq_some_iff.mp h
  have hfresh := hfresh k
  have hheld := hheld k
  -- Nothing occurs twice in one event, so each count is 0 or 1 and membership decides.
  rw [hacquires.count, hreleases.count]
  simp only [List.mem_append, Finset.mem_sdiff, Finset.mem_union, List.mem_toFinset] at hheld ⊢
  by_cases h₁ : k ∈ held <;> by_cases h₂ : k ∈ c.acquires e <;> by_cases h₃ : k ∈ c.releases e <;>
    simp_all

/-! ## Runs -/

@[simp] theorem run_nil (held : Finset κ) : c.run held [] = some held := rfl

theorem run_cons (held : Finset κ) (e : Event) (l : List Event) :
    c.run held (e :: l) = (c.step held e).bind fun held' => c.run held' l := by
  rw [run, List.foldlM_cons]
  rfl

theorem run_append (held : Finset κ) (l₁ l₂ : List Event) :
    c.run held (l₁ ++ l₂) = (c.run held l₁).bind fun held' => c.run held' l₂ := by
  rw [run, List.foldlM_append]
  rfl

theorem run_isPath : IsPath fun held l held' => c.run held l = some held' where
  nil _ := rfl
  append h₁ h₂ := by rw [run_append, h₁, Option.bind_some, h₂]

/-- Events that each leave what is held as it is. -/
theorem run_of_steps {held : Finset κ} {l : List Event}
    (h : ∀ e ∈ l, c.step held e = some held) : c.run held l = some held := by
  induction l with
  | nil => rfl
  | cons e l ih =>
    rw [run_cons, h e List.mem_cons_self, Option.bind_some]
    exact ih fun e' he' => h e' (List.mem_cons_of_mem _ he')

theorem run_of_idle (held : Finset κ) {l : List Event} (h : ∀ e ∈ l, c.Idle e) :
    c.run held l = some held := by
  apply c.run_of_steps
  intro e he
  obtain ⟨hacquires, huses, hreleases⟩ := h e he
  exact c.step_of_uses hacquires hreleases (by simp [huses])

/-- Where a list is cut, the event behind the cut may come. -/
theorem exists_allows_of_run {held held' : Finset κ} {l₁ l₂ : List Event} {e : Event}
    (h : c.run held (l₁ ++ e :: l₂) = some held') :
    ∃ middle, c.run held l₁ = some middle ∧ c.Allows middle e := by
  rw [run_append, Option.bind_eq_some_iff] at h
  obtain ⟨middle, hfirst, hrest⟩ := h
  rw [run_cons, Option.bind_eq_some_iff] at hrest
  obtain ⟨_, hstep, -⟩ := hrest
  exact ⟨middle, hfirst, (c.step_eq_some_iff.mp hstep).1⟩

/-- What is held and what is acquired is what is held in the end and what is released. -/
theorem run_count {held held' : Finset κ} {l : List Event} (h : c.run held l = some held')
    (k : κ) :
    (if k ∈ held then 1 else 0) + (c.acquired l).count k
      = (if k ∈ held' then 1 else 0) + (c.released l).count k := by
  induction l generalizing held with
  | nil => cases h; rfl
  | cons e l ih =>
    rw [run_cons, Option.bind_eq_some_iff] at h
    obtain ⟨middle, hstep, hrest⟩ := h
    -- What is held in the middle stands on both sides and cancels.
    have hhead := c.step_count hstep k
    have htail := ih hrest
    simp only [acquired, released, List.flatMap_cons, List.count_append] at htail ⊢
    omega

/-! ## Runs from nothing to nothing -/

section Settled

variable {c} {l : List Event} (h : c.run ∅ l = some ∅)

include h

/-- Each thing is released as often as it is acquired. -/
theorem count_released (k : κ) : (c.released l).count k = (c.acquired l).count k := by
  have hcount := c.run_count h k
  simpa using hcount.symm

/-- At any point, each thing has been released as often as it has been acquired, or once
    less. -/
theorem count_prefix {l₁ : List Event} (hl : l₁ <+: l) (k : κ) :
    (c.released l₁).count k ≤ (c.acquired l₁).count k ∧
      (c.acquired l₁).count k ≤ (c.released l₁).count k + 1 := by
  obtain ⟨l₂, rfl⟩ := hl
  rw [run_append, Option.bind_eq_some_iff] at h
  obtain ⟨middle, hfirst, -⟩ := h
  have hcount := c.run_count hfirst k
  simp only [Finset.notMem_empty, if_false] at hcount
  split at hcount <;> omega

/-- A thing that is used or released has been acquired, and not been released since. -/
theorem count_of_mem {l₁ l₂ : List Event} {e : Event} {k : κ} (hl : l = l₁ ++ e :: l₂)
    (hk : k ∈ c.uses e ++ c.releases e) :
    (c.acquired l₁).count k = (c.released l₁).count k + 1 := by
  subst hl
  obtain ⟨middle, hfirst, -, -, -, hheld⟩ := c.exists_allows_of_run h
  have hcount := c.run_count hfirst k
  -- What the event needs is held in the middle, so it counts once more on that side.
  rw [if_pos (hheld k hk)] at hcount
  simp only [Finset.notMem_empty, if_false] at hcount
  omega

end Settled

end Custody

/-! ## Processes, ends of pipes, files -/

/-- The streams that a start names. -/
def Event.streams : Event → List Stream
  | .spawn _ _ stdin stdout stderr _ => [stdin, stdout, stderr]
  | .spawnFailed _ stdin stdout => [stdin, stdout]
  | _ => []

def Stream.descriptor? : Stream → Option Descriptor
  | .descriptor fd => some fd
  | _ => none

def Stream.file? : Stream → Option String
  | .file path => some path
  | _ => none

/-- A process is held from its start to the first wait for it that is not interrupted. -/
def processes : Custody Int where
  acquires
    | .spawn pid .. => [pid]
    | _ => []
  uses
    | .wait pid none | .terminate pid => [pid]
    | _ => []
  releases
    | .wait pid (some _) => [pid]
    | _ => []

/-- The ends of a pipe are held from the call that hands them out until they are closed. -/
def descriptors : Custody Descriptor where
  acquires
    | .pipe readEnd writeEnd => [readEnd, writeEnd]
    | _ => []
  uses e := e.streams.filterMap Stream.descriptor?
  releases
    | .close fd => [fd]
    | _ => []

/-- A file is held while it is open. -/
def openFiles : Custody String where
  acquires
    | .openFile path _ true => [path]
    | _ => []
  uses e := e.streams.filterMap Stream.file?
  releases
    | .closeFile path => [path]
    | _ => []

end LineShell
