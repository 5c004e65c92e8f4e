/-
  LineShell.Proofs.Tree.Conserved

  Reading a line loses nothing and doubles nothing.

  What a leaf has taken from its line is its yield.  The doubled operators between
  the parts of a conditional are in no yield, and blanks do not count; every other
  character of a line is in the yield of one of its leaves, once and in its place
  (`parse_conserved`).
-/

import LineShell.Proofs.Tree.Leaves

namespace LineShell.Tree

open Text

variable {cs : List Char}

/-! ## What a leaf takes from its line -/

/-- The characters that words are made of. -/
def lettersOf (words : List String) : List Char := (words.map String.toList).flatten

/-- What a leaf has taken from its line: its words, with the operators that stand in it. -/
def yield : Tree → List Char
  | .command _ words => lettersOf words
  | .redirect source mode target => source.toList ++ mode.operator.toList ++ target.toList
  | .pipeline stages => ['|'].intercalate (stages.map lettersOf)
  | .conditional _ => []

theorem lettersOf_wordsOf (cs : List Char) :
    lettersOf ((wordsOf cs).map String.ofList) = withoutBlanks cs := by
  rw [lettersOf, List.map_map]
  simp only [Function.comp_def, String.toList_ofList, List.map_id']
  exact flatten_wordsOf cs

/-- The rules for parts take all of a part but its blanks. -/
theorem withoutBlanks_yield_ofPart (cs : List Char) :
    withoutBlanks (ofPart cs).yield = withoutBlanks cs := by
  cases hredirect : redirectOf? cs with
  | some t =>
    obtain ⟨before, after, mode, rfl, hcs, -⟩ := of_redirectOf?_eq_some hredirect
    rw [ofPart_of_redirect hredirect, redirectAt, yield, String.toList_ofList, String.toList_ofList,
      hcs]
    simp only [withoutBlanks_append, ignoresMargins_withoutBlanks.trim]
  | none =>
    by_cases hbar : '|' ∈ cs
    · have hstages : (stagesOf cs).map lettersOf = (cs.splitOn '|').map withoutBlanks := by
        rw [stagesOf, List.map_map]
        exact List.map_congr_left fun segment _ => lettersOf_wordsOf segment
      have hsep : ∀ c ∈ ['|'], isBlank c = false := by simpa using isBlank_bar
      rw [ofPart_of_pipeline hredirect hbar, yield, hstages, ← withoutBlanks_intercalate hsep,
        List.intercalate_splitOn, withoutBlanks_withoutBlanks]
    · rw [ofPart_of_command hredirect hbar, yield, lettersOf_wordsOf, withoutBlanks_withoutBlanks]

/-- A part that is a plain command is its text. -/
theorem of_ofPart_eq_command {text : String} {words : List String}
    (h : ofPart cs = command text words) :
    text = String.ofList cs ∧ words = (wordsOf cs).map String.ofList := by
  cases hredirect : redirectOf? cs with
  | some t =>
    obtain ⟨before, after, mode, rfl, -⟩ := of_redirectOf?_eq_some hredirect
    rw [ofPart_of_redirect hredirect] at h
    cases h
  | none =>
    by_cases hbar : '|' ∈ cs
    · rw [ofPart_of_pipeline hredirect hbar] at h
      cases h
    · rw [ofPart_of_command hredirect hbar] at h
      cases h
      exact ⟨rfl, rfl⟩

/-- A line that is a plain command is its trimmed text. -/
theorem of_parse_eq_command {line text : String} {words : List String}
    (h : parse line = command text words) : text = trim line ∧ words = Text.words text := by
  rw [parse] at h
  split at h
  · cases h
  · obtain ⟨rfl, rfl⟩ := of_ofPart_eq_command h
    rw [Text.words, String.toList_ofList]
    exact ⟨rfl, rfl⟩

/-! ## Conditionals -/

/-- The alternatives of a group take all of its parts but the blanks; parts with nothing else in
    them have nothing to be lost. -/
theorem withoutBlanks_yield_alternativesOf (cs : List Char) :
    withoutBlanks ((alternativesOf cs).flatMap yield)
      = withoutBlanks (splitDoubled '|' cs).flatten := by
  rw [alternativesOf]
  induction splitDoubled '|' cs with
  | nil => rfl
  | cons part rest ih =>
    rw [List.map_cons, List.flatten_cons, withoutBlanks_append, ← ih,
      ← ignoresMargins_withoutBlanks.trim part]
    by_cases hempty : trimBy isBlank part = []
    · rw [List.filter_cons_of_neg (by simp [hempty]), hempty]
      rfl
    · rw [List.filter_cons_of_pos (by simpa using hempty), List.map_cons, List.flatMap_cons,
        withoutBlanks_append, withoutBlanks_yield_ofPart]

/-- What is left of a text when its doubled ampersands are cut out, and then the doubled bars of
    each piece. -/
def withoutOperators (cs : List Char) : List Char :=
  (splitDoubled '&' cs).flatMap fun piece => (splitDoubled '|' piece).flatten

theorem withoutBlanks_yield_groupsOf (cs : List Char) :
    withoutBlanks ((groupsOf cs).flatten.flatMap yield) = withoutBlanks (withoutOperators cs) := by
  rw [groupsOf, withoutOperators]
  induction splitDoubled '&' cs with
  | nil => rfl
  | cons piece rest ih =>
    rw [List.map_cons, List.flatten_cons, List.flatMap_append, List.flatMap_cons,
      withoutBlanks_append, withoutBlanks_append, ih, withoutBlanks_yield_alternativesOf]

theorem leaves_groupsOf (cs : List Char) :
    (conditional (groupsOf cs)).leaves = (groupsOf cs).flatten := by
  have hleaf : ∀ t ∈ (groupsOf cs).flatten, t.leaves = [t] := by
    intro t ht
    obtain ⟨group, hgroup, ht⟩ := List.mem_flatten.mp ht
    obtain ⟨piece, -, rfl⟩ := List.mem_map.mp hgroup
    obtain ⟨part, -, rfl⟩ := List.mem_map.mp ht
    exact leaves_ofPart part
  rw [leaves, leavesOfGroups_eq_flatMap, List.flatMap_congr hleaf, List.flatMap_singleton']

/-! ## Lines -/

/-- What becomes of the characters of a line. -/
structure Conserved (line : String) (t : Tree) : Prop where
  /-- The operators that are cut out are the first one, then the first one behind it, and so on. -/
  ampersands : Pieces ['&', '&'] (trimBy isBlank line.toList)
    (splitDoubled '&' (trimBy isBlank line.toList))
  bars : ∀ piece ∈ splitDoubled '&' (trimBy isBlank line.toList),
    Pieces ['|', '|'] piece (splitDoubled '|' piece)
  /-- All that is neither blank nor in a doubled operator is in the leaves. -/
  yields : withoutBlanks (withoutOperators (trimBy isBlank line.toList))
    = withoutBlanks (t.leaves.flatMap yield)
  /-- The words of a plain command are its text. -/
  commands : ∀ text words, command text words ∈ t.leaves →
    lettersOf words = withoutBlanks text.toList
  /-- There is one group more than doubled ampersands. -/
  groups : ∀ groups, t = conditional groups →
    groups.length = countDoubled '&' (trimBy isBlank line.toList) + 1

/-- The leaves of a line hold every character of it that is neither blank nor in a doubled
    operator, once and in order. -/
theorem parse_conserved (line : String) : Conserved line (parse line) := by
  refine ⟨pieces_splitDoubled '&' _, fun piece _ => pieces_splitDoubled '|' piece, ?_,
    fun text words hleaf => ?_, fun groups hgroups => ?_⟩
  · rw [parse]
    split
    · rw [leaves_groupsOf, withoutBlanks_yield_groupsOf]
    · next h =>
      -- Without doubled operators the line is the only piece of itself.
      simp only [not_or, Bool.not_eq_true] at h
      rw [leaves_ofPart, List.flatMap_singleton, withoutBlanks_yield_ofPart, withoutOperators,
        splitDoubled_eq_singleton h.1, List.flatMap_singleton, splitDoubled_eq_singleton h.2,
        List.flatten_singleton]
  · obtain ⟨part, -, hpart⟩ := of_mem_leaves_parse hleaf
    obtain ⟨rfl, rfl⟩ := of_ofPart_eq_command hpart.symm
    rw [lettersOf_wordsOf, String.toList_ofList]
  · rw [parse] at hgroups
    split at hgroups
    · cases hgroups
      rw [groupsOf, List.length_map, length_splitDoubled]
    · exact absurd hgroups (ofPart_ne_conditional _ _)

/-- Of three characters in a row the first two are the operator. -/
example : withoutOperators "a ||| b &&& c".toList = "a | b & c".toList := by decide

end LineShell.Tree
