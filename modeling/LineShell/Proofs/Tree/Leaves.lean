/-
  LineShell.Proofs.Tree.Leaves

  The parts of a line that are run: its leaves.

  A tree that is no conditional is its own leaf, and the leaves of a conditional
  are those of its alternatives.  The words, commands and targets in the leaves of
  a line all stand in the line (`isInfix_of_mem_texts`).
-/

import LineShell.Proofs.Tree.Reading

namespace LineShell.Tree

open Text

mutual

/-- The trees in a tree that are no conditionals, in order. -/
def leaves : Tree → List Tree
  | .conditional groups => leavesOfGroups groups
  | .command text words => [.command text words]
  | .redirect source mode target => [.redirect source mode target]
  | .pipeline stages => [.pipeline stages]

/-- The leaves of groups of alternatives. -/
def leavesOfGroups : List (List Tree) → List Tree
  | [] => []
  | group :: rest => leavesOfGroup group ++ leavesOfGroups rest

/-- The leaves of the alternatives of a group. -/
def leavesOfGroup : List Tree → List Tree
  | [] => []
  | alternative :: rest => leaves alternative ++ leavesOfGroup rest

end

/-- The texts that a leaf is made of. -/
def texts : Tree → List String
  | .command text words => text :: words
  | .redirect source _ target => [source, target]
  | .pipeline stages => stages.flatten
  | .conditional _ => []

theorem leavesOfGroup_eq_flatMap (group : List Tree) :
    leavesOfGroup group = group.flatMap leaves := by
  induction group with
  | nil => rfl
  | cons alternative rest ih => rw [leavesOfGroup, ih, List.flatMap_cons]

theorem leavesOfGroups_eq_flatMap (groups : List (List Tree)) :
    leavesOfGroups groups = groups.flatten.flatMap leaves := by
  induction groups with
  | nil => rfl
  | cons group rest ih =>
    rw [leavesOfGroups, ih, leavesOfGroup_eq_flatMap, List.flatten_cons, List.flatMap_append]

theorem mem_leaves_conditional {groups : List (List Tree)} {leaf : Tree} :
    leaf ∈ (conditional groups).leaves ↔ ∃ group ∈ groups, ∃ t ∈ group, leaf ∈ t.leaves := by
  rw [leaves, leavesOfGroups_eq_flatMap, List.mem_flatMap]
  simp only [List.mem_flatten]
  constructor
  · rintro ⟨t, ⟨group, hgroup, ht⟩, hleaf⟩
    exact ⟨group, hgroup, t, ht, hleaf⟩
  · rintro ⟨group, hgroup, t, ht, hleaf⟩
    exact ⟨t, ⟨group, hgroup, ht⟩, hleaf⟩

mutual

/-- A leaf is no conditional. -/
theorem conditional_notMem_leaves (t : Tree) (groups : List (List Tree)) :
    conditional groups ∉ t.leaves := by
  match t with
  | .command text words => simp [leaves]
  | .redirect source mode target => simp [leaves]
  | .pipeline stages => simp [leaves]
  | .conditional groups' =>
    rw [leaves]
    exact conditional_notMem_leavesOfGroups groups' groups

theorem conditional_notMem_leavesOfGroups (groups' groups : List (List Tree)) :
    conditional groups ∉ leavesOfGroups groups' := by
  match groups' with
  | [] => simp [leavesOfGroups]
  | group :: rest =>
    rw [leavesOfGroups, List.mem_append, not_or]
    exact ⟨conditional_notMem_leavesOfGroup group groups,
      conditional_notMem_leavesOfGroups rest groups⟩

theorem conditional_notMem_leavesOfGroup (group : List Tree) (groups : List (List Tree)) :
    conditional groups ∉ leavesOfGroup group := by
  match group with
  | [] => simp [leavesOfGroup]
  | alternative :: rest =>
    rw [leavesOfGroup, List.mem_append, not_or]
    exact ⟨conditional_notMem_leaves alternative groups,
      conditional_notMem_leavesOfGroup rest groups⟩

end

/-! ## The texts stand in the line -/

variable {cs : List Char} {line text : String} {leaf : Tree}

theorem leaves_ofPart (cs : List Char) : (ofPart cs).leaves = [ofPart cs] := by
  cases h : ofPart cs with
  | conditional groups => exact absurd h (ofPart_ne_conditional cs groups)
  | _ => rw [leaves]

theorem isInfix_of_mem_texts_ofPart (htext : text ∈ (ofPart cs).texts) :
    text.toList <:+: cs := by
  cases hredirect : redirectOf? cs with
  | some t =>
    rw [ofPart_of_redirect hredirect] at htext
    obtain ⟨before, after, mode, rfl, rfl, -⟩ := of_redirectOf?_eq_some hredirect
    rw [redirectAt, texts, List.mem_cons, List.mem_singleton] at htext
    obtain rfl | rfl := htext
    · rw [String.toList_ofList, List.append_assoc]
      exact trimBy_isInfix.trans List.infix_append_left
    · rw [String.toList_ofList]
      exact trimBy_isInfix.trans List.infix_append_right
  | none =>
    by_cases hbar : '|' ∈ cs
    · rw [ofPart_of_pipeline hredirect hbar, texts, stagesOf, List.mem_flatten] at htext
      obtain ⟨stage, hstage, htext⟩ := htext
      obtain ⟨segment, hsegment, rfl⟩ := List.mem_map.mp hstage
      obtain ⟨word, hword, rfl⟩ := List.mem_map.mp htext
      rw [String.toList_ofList]
      exact (of_mem_wordsOf hword).2.2.trans (of_mem_splitOnP hsegment).2
    · rw [ofPart_of_command hredirect hbar, texts, List.mem_cons] at htext
      obtain rfl | htext := htext
      · rw [String.toList_ofList]
      · obtain ⟨word, hword, rfl⟩ := List.mem_map.mp htext
        rw [String.toList_ofList]
        exact (of_mem_wordsOf hword).2.2

/-- A leaf of a line is what the rules for parts make of a part of the line. -/
theorem of_mem_leaves_parse (h : leaf ∈ (parse line).leaves) :
    ∃ part, part <:+: line.toList ∧ leaf = ofPart part := by
  rw [parse] at h
  split at h
  -- A part of a conditional is a piece of a piece of the line, without the blanks around it.
  · obtain ⟨group, hgroup, t, ht, hleaf⟩ := mem_leaves_conditional.mp h
    obtain ⟨piece, hpiece, rfl⟩ := List.mem_map.mp hgroup
    obtain ⟨part, hpart, rfl⟩ := List.mem_map.mp ht
    obtain ⟨untrimmed, huntrimmed, rfl⟩ := List.mem_map.mp (List.mem_filter.mp hpart).1
    rw [leaves_ofPart, List.mem_singleton] at hleaf
    refine ⟨_, ?_, hleaf⟩
    have hin := (isInfix_of_mem_splitDoubled huntrimmed).trans (isInfix_of_mem_splitDoubled hpiece)
    exact trimBy_isInfix.trans (hin.trans trimBy_isInfix)
  · rw [leaves_ofPart, List.mem_singleton] at h
    exact ⟨_, trimBy_isInfix, h⟩

/-- The texts of the leaves of a line are texts that stand in it. -/
theorem isInfix_of_mem_texts (hleaf : leaf ∈ (parse line).leaves) (htext : text ∈ leaf.texts) :
    text.toList <:+: line.toList := by
  obtain ⟨part, hpart, rfl⟩ := of_mem_leaves_parse hleaf
  exact (isInfix_of_mem_texts_ofPart htext).trans hpart

end LineShell.Tree
