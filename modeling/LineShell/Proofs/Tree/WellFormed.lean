/-
  LineShell.Proofs.Tree.WellFormed

  The trees that reading a line can give.

  Trees as such are freer than lines: nothing in their type keeps a blank out of
  a word, an operator out of a command, or a conditional out of another one.  A
  tree is well-formed when each of its texts could stand where it stands in a
  line.  For a redirect this depends on the operator, since operators are looked
  for in a fixed order and the first occurrence decides.

  Reading any line gives a well-formed tree (`parse_wellFormed`).
-/

import LineShell.Proofs.Tree.Reading

namespace LineShell

namespace Text

/-- Whether an operator occurs in a text. -/
def Contains (s op : String) : Prop := op.toList <:+: s.toList

instance : DecidableRel Contains := fun s op =>
  inferInstanceAs (Decidable (op.toList <:+: s.toList))

/-- A text that can be a word of a part of a line. -/
def IsWord (w : String) : Prop :=
  w ≠ "" ∧ (∀ c ∈ w.toList, isBlank c = false) ∧ ∀ op ∈ ["|", "<", ">", "&&"], ¬ Contains w op

-- There are finitely many characters, so that a bounded quantifier over them may be decided
-- by trying them all: the instance asks for the characters of the word instead.
instance : DecidablePred IsWord := fun w =>
  letI : Decidable (∀ c ∈ w.toList, isBlank c = false) := List.decidableBAll _ _
  inferInstanceAs (Decidable (_ ∧ _))

variable {s : String}

theorem contains_and_iff : Contains s "&&" ↔ hasDoubled '&' s.toList = true :=
  hasDoubled_iff_infix.symm

theorem contains_or_iff : Contains s "||" ↔ hasDoubled '|' s.toList = true :=
  hasDoubled_iff_infix.symm

theorem contains_append_iff : Contains s ">>" ↔ hasDoubled '>' s.toList = true :=
  hasDoubled_iff_infix.symm

theorem contains_bar_iff : Contains s "|" ↔ '|' ∈ s.toList := List.singleton_infix_iff _ _

theorem contains_lt_iff : Contains s "<" ↔ '<' ∈ s.toList := List.singleton_infix_iff _ _

theorem contains_gt_iff : Contains s ">" ↔ '>' ∈ s.toList := List.singleton_infix_iff _ _

/-- The operators that keep a text from being a plain command or a word. -/
theorem forall_not_contains_iff :
    (∀ op ∈ ["|", "<", ">", "&&"], ¬ Contains s op) ↔
      '|' ∉ s.toList ∧ '<' ∉ s.toList ∧ '>' ∉ s.toList ∧ hasDoubled '&' s.toList = false := by
  simp only [List.mem_cons, List.not_mem_nil, or_false, forall_eq_or_imp, forall_eq,
    contains_bar_iff, contains_lt_iff, contains_gt_iff, contains_and_iff, Bool.not_eq_true]

end Text

open Text

/-- What the operator of a redirect keeps out of the texts on its two sides. -/
def OpenMode.Separates (mode : OpenMode) (command target : String) : Prop :=
  match mode with
  | .append => ¬ Contains command ">>"
  | .truncate => ¬ Contains command ">" ∧ ¬ Contains target ">>"
  | .read => ¬ Contains command "<" ∧ ¬ Contains command ">" ∧ ¬ Contains target ">"

namespace Tree

/-- Whether the tree is a conditional. -/
def isConditional : Tree → Bool
  | conditional _ => true
  | _ => false

/-- Whether the tree is a plain command without text. -/
def isEmptyCommand : Tree → Bool
  | command text _ => text == ""
  | _ => false

/-- A tree all of whose texts can stand where they stand in a line. -/
inductive WellFormed : Tree → Prop
  | command {text : String} (trimmed : trim text = text)
      (plain : ∀ op ∈ ["|", "<", ">", "&&"], ¬ Contains text op) :
      WellFormed (.command text (words text))
  | redirect {command target : String} {mode : OpenMode}
      (command_trimmed : trim command = command) (target_trimmed : trim target = target)
      (command_plain : ¬ Contains command "&&" ∧ ¬ Contains command "||")
      (target_plain : ¬ Contains target "&&" ∧ ¬ Contains target "||")
      (separates : mode.Separates command target) :
      WellFormed (.redirect command mode target)
  | pipeline {stages : List (List String)} (two_le : 2 ≤ stages.length)
      (isWord : ∀ stage ∈ stages, ∀ w ∈ stage, IsWord w) :
      WellFormed (.pipeline stages)
  | conditional {groups : List (List Tree)} (ne_nil : groups ≠ [])
      (members : ∀ group ∈ groups, ∀ t ∈ group, WellFormed t)
      (flat : ∀ group ∈ groups, ∀ t ∈ group, t.isConditional = false)
      (nonempty : ∀ group ∈ groups, ∀ t ∈ group, t.isEmptyCommand = false) :
      WellFormed (.conditional groups)

variable {cs : List Char}

/-! ## Reading gives well-formed trees -/

theorem trim_ofList_trimBy (cs : List Char) :
    trim (String.ofList (trimBy isBlank cs)) = String.ofList (trimBy isBlank cs) := by
  rw [trim, String.toList_ofList, trimBy_trimBy]

theorem wellFormed_redirectAt {t : Tree} (hand : hasDoubled '&' cs = false)
    (hor : hasDoubled '|' cs = false) (h : redirectOf? cs = some t) : t.WellFormed := by
  obtain ⟨before, after, mode, rfl, hcs, hmode⟩ := of_redirectOf?_eq_some h
  have hbefore : trimBy isBlank before <:+: cs := by
    rw [hcs, List.append_assoc]
    exact trimBy_isInfix.trans List.infix_append_left
  have hafter : trimBy isBlank after <:+: cs := by
    rw [hcs]
    exact trimBy_isInfix.trans List.infix_append_right
  have hplain : ∀ {p : List Char}, p <:+: cs →
      ¬ Contains (String.ofList p) "&&" ∧ ¬ Contains (String.ofList p) "||" := by
    intro p hp
    rw [contains_and_iff, contains_or_iff, String.toList_ofList, Bool.not_eq_true,
      Bool.not_eq_true]
    exact ⟨hasDoubled_of_isInfix hp hand, hasDoubled_of_isInfix hp hor⟩
  refine .redirect (trim_ofList_trimBy before) (trim_ofList_trimBy after) (hplain hbefore)
    (hplain hafter) ?_
  cases mode with
  | append =>
    simp only [OpenMode.Separates, contains_append_iff, String.toList_ofList, Bool.not_eq_true]
    exact hasDoubled_of_isInfix trimBy_isInfix hmode
  | truncate =>
    simp only [OpenMode.Separates, contains_append_iff, contains_gt_iff, String.toList_ofList,
      Bool.not_eq_true]
    exact ⟨fun hmem => hmode.1 (trimBy_isInfix.subset hmem),
      hasDoubled_of_isInfix hafter hmode.2⟩
  | read =>
    simp only [OpenMode.Separates, contains_lt_iff, contains_gt_iff, String.toList_ofList]
    exact ⟨fun hmem => hmode.1 (trimBy_isInfix.subset hmem),
      fun hmem => hmode.2 (hbefore.subset hmem), fun hmem => hmode.2 (hafter.subset hmem)⟩

theorem two_le_length_stagesOf (hbar : '|' ∈ cs) : 2 ≤ (stagesOf cs).length := by
  -- The bar cuts the text into two, each of which gives a segment at least.
  obtain ⟨l, r, rfl⟩ := List.append_of_mem hbar
  have hl := List.length_pos_of_ne_nil (List.splitOn_ne_nil '|' l)
  have hr := List.length_pos_of_ne_nil (List.splitOn_ne_nil '|' r)
  rw [stagesOf, List.splitOn_append_cons_self, List.length_map, List.length_append]
  omega

theorem isWord_of_mem_stagesOf (hand : hasDoubled '&' cs = false)
    (hredirect : redirectOf? cs = none) :
    ∀ stage ∈ stagesOf cs, ∀ w ∈ stage, IsWord w := by
  intro stage hstage w hw
  obtain ⟨segment, hsegment, rfl⟩ := List.mem_map.mp hstage
  obtain ⟨word, hword, rfl⟩ := List.mem_map.mp hw
  obtain ⟨hne, hblank, hin⟩ := of_mem_wordsOf hword
  rw [List.splitOn_eq_splitOnP] at hsegment
  obtain ⟨hno, hsegcs⟩ := of_mem_splitOnP hsegment
  obtain ⟨hgt, hlt⟩ := redirectOf?_eq_none_iff.mp hredirect
  have hwcs : word <:+: cs := hin.trans hsegcs
  refine ⟨by simpa [String.ofList_eq_empty_iff] using hne, by rwa [String.toList_ofList], ?_⟩
  rw [forall_not_contains_iff, String.toList_ofList]
  refine ⟨?_, fun h => hlt (hwcs.subset h), fun h => hgt (hwcs.subset h),
    hasDoubled_of_isInfix hwcs hand⟩
  intro h
  simpa using hno '|' (hin.subset h)

/-- A part of a line is read as a well-formed tree. -/
theorem ofPart_wellFormed (htrim : trimBy isBlank cs = cs) (hand : hasDoubled '&' cs = false)
    (hor : hasDoubled '|' cs = false) : (ofPart cs).WellFormed := by
  cases hredirect : redirectOf? cs with
  | some t =>
    rw [ofPart_of_redirect hredirect]
    exact wellFormed_redirectAt hand hor hredirect
  | none =>
    by_cases hbar : '|' ∈ cs
    · rw [ofPart_of_pipeline hredirect hbar]
      exact .pipeline (two_le_length_stagesOf hbar) (isWord_of_mem_stagesOf hand hredirect)
    · obtain ⟨hgt, hlt⟩ := redirectOf?_eq_none_iff.mp hredirect
      have hwords : (wordsOf cs).map String.ofList = words (String.ofList cs) := by
        rw [words, String.toList_ofList]
      rw [ofPart_of_command hredirect hbar, hwords]
      refine .command (by rw [trim, String.toList_ofList, htrim]) ?_
      rw [forall_not_contains_iff, String.toList_ofList]
      exact ⟨hbar, hlt, hgt, hand⟩

theorem isConditional_ofPart (cs : List Char) : (ofPart cs).isConditional = false := by
  cases h : ofPart cs with
  | conditional groups => exact absurd h (ofPart_ne_conditional cs groups)
  | _ => rfl

theorem isEmptyCommand_ofPart (hne : cs ≠ []) : (ofPart cs).isEmptyCommand = false := by
  cases hredirect : redirectOf? cs with
  | some t =>
    obtain ⟨before, after, mode, rfl, -⟩ := of_redirectOf?_eq_some hredirect
    rw [ofPart_of_redirect hredirect]
    rfl
  | none =>
    by_cases hbar : '|' ∈ cs
    · rw [ofPart_of_pipeline hredirect hbar]
      rfl
    · rw [ofPart_of_command hredirect hbar]
      simpa [isEmptyCommand, String.ofList_eq_empty_iff] using hne

theorem groupsOf_wellFormed (cs : List Char) : (conditional (groupsOf cs)).WellFormed := by
  -- A member is read from a trimmed part, which is not empty and holds no doubled operator.
  have hmember : ∀ group ∈ groupsOf cs, ∀ t ∈ group, ∃ part, t = ofPart part ∧ part ≠ [] ∧
      trimBy isBlank part = part ∧ hasDoubled '&' part = false ∧ hasDoubled '|' part = false := by
    intro group hgroup t ht
    obtain ⟨piece, hpiece, rfl⟩ := List.mem_map.mp hgroup
    obtain ⟨part, hpart, rfl⟩ := List.mem_map.mp ht
    obtain ⟨hmem, hne⟩ := List.mem_filter.mp hpart
    obtain ⟨raw, hraw, rfl⟩ := List.mem_map.mp hmem
    refine ⟨trimBy isBlank raw, rfl, by simpa using hne, trimBy_trimBy, ?_, ?_⟩
    · exact hasDoubled_of_isInfix (trimBy_isInfix.trans (isInfix_of_mem_splitDoubled hraw))
        (hasDoubled_of_mem_splitDoubled hpiece)
    · exact hasDoubled_of_isInfix trimBy_isInfix (hasDoubled_of_mem_splitDoubled hraw)
  refine .conditional ?_ ?_ ?_ ?_
  · simpa [groupsOf] using splitDoubled_ne_nil '&' cs
  · intro group hgroup t ht
    obtain ⟨part, rfl, -, htrim, hand, hor⟩ := hmember group hgroup t ht
    exact ofPart_wellFormed htrim hand hor
  · intro group hgroup t ht
    obtain ⟨part, rfl, -⟩ := hmember group hgroup t ht
    exact isConditional_ofPart part
  · intro group hgroup t ht
    obtain ⟨part, rfl, hne, -⟩ := hmember group hgroup t ht
    exact isEmptyCommand_ofPart hne

/-- Every line is read as a well-formed tree. -/
theorem parse_wellFormed (line : String) : (parse line).WellFormed := by
  by_cases hop : hasDoubled '&' line.toList = true ∨ hasDoubled '|' line.toList = true
  · rw [parse_eq_conditional hop]
    exact groupsOf_wellFormed line.toList
  · rw [not_or, Bool.not_eq_true, Bool.not_eq_true] at hop
    rw [parse_eq_ofPart hop.1 hop.2]
    exact ofPart_wellFormed trimBy_trimBy (hasDoubled_of_isInfix trimBy_isInfix hop.1)
      (hasDoubled_of_isInfix trimBy_isInfix hop.2)

end Tree

end LineShell
