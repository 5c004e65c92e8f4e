/-
  LineShell.Proofs.Tree.Reading

  How a line is read, rule by rule.

  Of the rules only the one for plain commands can see the margins of a line, so
  all others may be applied to the line as it stands, untrimmed.  The parts of a
  conditional hold no doubled operator any more.  Reading a part by the remaining
  rules is therefore the same as reading it like a line of its own
  (`parse_eq_ofPart`, `groupsOf_eq_map_parse`), and such a reading ends after one
  step.

  A line put together from groups of alternatives is read as these groups, each
  alternative like a line of its own and the blank ones left out
  (`parse_chainText`).
-/

import LineShell.Proofs.Text.Cut
import LineShell.Proofs.Text.Joined
import LineShell.Tree.Parse

namespace LineShell.Tree

open Text

variable {cs : List Char} {line : String}

/-! ## Redirects and pipelines -/

@[simp] theorem toList_operator_append : OpenMode.append.operator.toList = ['>', '>'] := by decide

@[simp] theorem toList_operator_truncate : OpenMode.truncate.operator.toList = ['>'] := by decide

@[simp] theorem toList_operator_read : OpenMode.read.operator.toList = ['<'] := by decide

theorem operator_toList_ne_nil (mode : OpenMode) : mode.operator.toList ≠ [] := by
  cases mode <;> decide

theorem isBlank_gt : isBlank '>' = false := by decide

theorem isBlank_lt : isBlank '<' = false := by decide

theorem isBlank_of_mem_operator (mode : OpenMode) :
    ∀ c ∈ mode.operator.toList, isBlank c = false := by
  cases mode <;> simp [isBlank_gt, isBlank_lt]

/-- The redirect that a cut of a text gives. -/
def redirectAt (mode : OpenMode) (cut : List Char × List Char) : Tree :=
  redirect (String.ofList (trimBy isBlank cut.1)) mode (String.ofList (trimBy isBlank cut.2))

theorem redirectOf?_eq (cs : List Char) :
    redirectOf? cs = redirectModes.findSome? fun mode =>
      (cutAt? mode.operator.toList cs).map (redirectAt mode) := rfl

/-- The redirect at an operator does not depend on the margins of the text. -/
theorem ignoresMargins_redirectAt (mode : OpenMode) :
    IgnoresMargins fun cs => (cutAt? mode.operator.toList cs).map (redirectAt mode) where
  cons {c cs} hc := by
    have hcons : cutAt? mode.operator.toList (c :: cs)
        = (cutAt? mode.operator.toList cs).map fun cut => (c :: cut.1, cut.2) := by
      cases mode with
      | append => exact cutAt?_cons (ne_of_isBlank (by decide) hc)
      | truncate => exact cutAt?_cons (ne_of_isBlank (by decide) hc)
      | read => exact cutAt?_cons (ne_of_isBlank (by decide) hc)
    show (cutAt? mode.operator.toList (c :: cs)).map (redirectAt mode) = _
    rw [hcons, Option.map_map]
    congr 1
    funext cut
    simp only [Function.comp, redirectAt, trimBy_cons hc]
  concat {c cs} hc := by
    have hno : c ∉ mode.operator.toList :=
      fun hmem => ne_of_isBlank (isBlank_of_mem_operator mode c hmem) hc rfl
    show (cutAt? mode.operator.toList (cs ++ [c])).map (redirectAt mode) = _
    rw [cutAt?_concat (operator_toList_ne_nil mode) hno, Option.map_map]
    congr 1
    funext cut
    simp only [Function.comp, redirectAt, trimBy_concat hc]

theorem ignoresMargins_redirectOf? : IgnoresMargins redirectOf? where
  cons hc := by
    simp only [redirectOf?_eq, (ignoresMargins_redirectAt _).cons hc]
  concat hc := by
    simp only [redirectOf?_eq, (ignoresMargins_redirectAt _).concat hc]

/-- A text is a redirect by the first operator in the order of the modes that it holds,
    cut at the first occurrence of it. -/
theorem of_redirectOf?_eq_some {t : Tree} (h : redirectOf? cs = some t) :
    ∃ before after mode, t = redirectAt mode (before, after) ∧
      cs = before ++ mode.operator.toList ++ after ∧
      match mode with
      | .append => hasDoubled '>' before = false
      | .truncate => '>' ∉ before ∧ hasDoubled '>' cs = false
      | .read => '<' ∉ before ∧ '>' ∉ cs := by
  have hnone : ∀ {mode : OpenMode},
      (cutAt? mode.operator.toList cs).map (redirectAt mode) = none →
        ¬ mode.operator.toList <:+: cs :=
    fun h => (cutAt?_eq_none_iff (operator_toList_ne_nil _)).mp (Option.map_eq_none_iff.mp h)
  have hcut : ∀ {mode : OpenMode} {t : Tree},
      (cutAt? mode.operator.toList cs).map (redirectAt mode) = some t →
        ∃ before after, t = redirectAt mode (before, after) ∧
          cs = before ++ mode.operator.toList ++ after ∧ ¬ mode.operator.toList <:+: before := by
    intro mode t ht
    obtain ⟨⟨before, after⟩, hcut, rfl⟩ := Option.map_eq_some_iff.mp ht
    obtain ⟨hcs, hfirst⟩ := eq_of_cutAt? hcut
    exact ⟨before, after, rfl, hcs, hfirst (operator_toList_ne_nil mode)⟩
  simp only [redirectOf?_eq, redirectModes, List.findSome?_cons, List.findSome?_nil] at h
  split at h
  · next happend =>
    obtain ⟨before, after, rfl, hcs, hno⟩ := hcut (Option.some.inj h ▸ happend)
    exact ⟨before, after, .append, rfl, hcs, hasDoubled_eq_false_iff.mpr hno⟩
  · next happend =>
    split at h
    · next htruncate =>
      obtain ⟨before, after, rfl, hcs, hno⟩ := hcut (Option.some.inj h ▸ htruncate)
      refine ⟨before, after, .truncate, rfl, hcs, ?_, ?_⟩
      · exact fun hmem => hno ((List.singleton_infix_iff _ _).mpr hmem)
      · exact hasDoubled_eq_false_iff.mpr (hnone happend)
    · next htruncate =>
      split at h
      · next hread =>
        obtain ⟨before, after, rfl, hcs, hno⟩ := hcut (Option.some.inj h ▸ hread)
        refine ⟨before, after, .read, rfl, hcs, ?_, ?_⟩
        · exact fun hmem => hno ((List.singleton_infix_iff _ _).mpr hmem)
        · exact fun hmem => hnone htruncate ((List.singleton_infix_iff _ _).mpr hmem)
      · exact absurd h (by simp)

theorem redirectOf?_eq_none_iff : redirectOf? cs = none ↔ '>' ∉ cs ∧ '<' ∉ cs := by
  have hnone : ∀ mode : OpenMode, (cutAt? mode.operator.toList cs).map (redirectAt mode) = none ↔
      ¬ mode.operator.toList <:+: cs := by
    intro mode
    rw [Option.map_eq_none_iff, cutAt?_eq_none_iff (operator_toList_ne_nil mode)]
  have hsingle : ∀ c : Char, [c] <:+: cs ↔ c ∈ cs := fun c => List.singleton_infix_iff c cs
  simp only [redirectOf?_eq, redirectModes, List.findSome?_eq_none_iff, List.mem_cons,
    List.not_mem_nil, or_false, forall_eq_or_imp, forall_eq, hnone]
  constructor
  · rintro ⟨-, htruncate, hread⟩
    exact ⟨fun h => htruncate ((hsingle '>').mpr h), fun h => hread ((hsingle '<').mpr h)⟩
  · rintro ⟨hgt, hlt⟩
    refine ⟨fun h => hgt ?_, fun h => hgt ((hsingle '>').mp h), fun h => hlt ((hsingle '<').mp h)⟩
    exact h.subset (by decide)

/-- The stages of a pipeline. -/
def stagesOf (cs : List Char) : List (List String) :=
  (cs.splitOn '|').map fun segment => (wordsOf segment).map String.ofList

theorem isBlank_bar : isBlank '|' = false := by decide

theorem isBlank_ampersand : isBlank '&' = false := by decide

theorem ignoresMargins_stagesOf : IgnoresMargins stagesOf :=
  ignoresMargins_map_splitOn isBlank_bar (ignoresMargins_wordsOf.comp (List.map String.ofList))

/-! ## Parts -/

theorem ofPart_of_redirect {t : Tree} (h : redirectOf? cs = some t) : ofPart cs = t := by
  rw [ofPart, h]

theorem ofPart_of_pipeline (h : redirectOf? cs = none) (hbar : '|' ∈ cs) :
    ofPart cs = pipeline (stagesOf cs) := by
  rw [ofPart, h]
  exact if_pos hbar

theorem ofPart_of_command (h : redirectOf? cs = none) (hbar : '|' ∉ cs) :
    ofPart cs = command (String.ofList cs) ((wordsOf cs).map String.ofList) := by
  rw [ofPart, h]
  exact if_neg hbar

/-- A part is never a conditional. -/
theorem ofPart_ne_conditional (cs : List Char) (groups : List (List Tree)) :
    ofPart cs ≠ conditional groups := by
  cases h : redirectOf? cs with
  | some t =>
    obtain ⟨before, after, mode, rfl, -⟩ := of_redirectOf?_eq_some h
    rw [ofPart_of_redirect h]
    simp [redirectAt]
  | none =>
    by_cases hbar : '|' ∈ cs
    · simp [ofPart_of_pipeline h hbar]
    · simp [ofPart_of_command h hbar]

theorem ignoresMargins_alternativesOf : IgnoresMargins alternativesOf := by
  have h := ignoresMargins_map_splitDoubled isBlank_bar ignoresMargins_trimBy
  exact h.comp fun parts => (parts.filter fun part => !part.isEmpty).map ofPart

theorem ignoresMargins_groupsOf : IgnoresMargins groupsOf :=
  ignoresMargins_map_splitDoubled isBlank_ampersand ignoresMargins_alternativesOf

/-! ## Lines -/

/-- A line without a doubled operator is read by the rules for parts. -/
theorem parse_eq_ofPart (hand : hasDoubled '&' line.toList = false)
    (hor : hasDoubled '|' line.toList = false) :
    parse line = ofPart (trimBy isBlank line.toList) := by
  have hand' := ((ignoresMargins_hasDoubled isBlank_ampersand).trim line.toList).trans hand
  have hor' := ((ignoresMargins_hasDoubled isBlank_bar).trim line.toList).trans hor
  simp only [parse, hand', hor', Bool.false_eq_true, or_self, if_false]

/-- A line with a doubled operator is a conditional, whose groups can be read off the
    untrimmed line. -/
theorem parse_eq_conditional
    (h : hasDoubled '&' line.toList = true ∨ hasDoubled '|' line.toList = true) :
    parse line = conditional (groupsOf line.toList) := by
  rw [← (ignoresMargins_hasDoubled isBlank_ampersand).trim line.toList,
    ← (ignoresMargins_hasDoubled isBlank_bar).trim line.toList] at h
  simp only [parse, if_pos h, ignoresMargins_groupsOf.trim]

/-- The parts of a conditional are read like lines of their own. -/
theorem groupsOf_eq_map_parse (cs : List Char) :
    groupsOf cs = (splitDoubled '&' cs).map fun piece =>
      (((splitDoubled '|' piece).map (trimBy isBlank)).filter fun part => !part.isEmpty).map
        fun part => parse (String.ofList part) := by
  apply List.map_congr_left
  intro piece hpiece
  apply List.map_congr_left
  intro part hpart
  obtain ⟨raw, hraw, rfl⟩ := List.mem_map.mp (List.mem_of_mem_filter hpart)
  have hor : hasDoubled '|' (trimBy isBlank raw) = false :=
    hasDoubled_of_isInfix trimBy_isInfix (hasDoubled_of_mem_splitDoubled hraw)
  have hand : hasDoubled '&' (trimBy isBlank raw) = false :=
    hasDoubled_of_isInfix (trimBy_isInfix.trans (isInfix_of_mem_splitDoubled hraw))
      (hasDoubled_of_mem_splitDoubled hpiece)
  rw [parse_eq_ofPart (by rwa [String.toList_ofList]) (by rwa [String.toList_ofList]),
    String.toList_ofList, trimBy_trimBy]

/-! ## Chains -/

/-- The line that groups of alternatives are put together to. -/
def chainText (groups : List (List String)) : String :=
  " && ".intercalate (groups.map (" || ".intercalate ·))

theorem toList_chainText (groups : List (List String)) :
    (chainText groups).toList
      = joinDoubled '&' (groups.map fun group => joinDoubled '|' (group.map String.toList)) := by
  simp [chainText, joinDoubled, Function.comp_def]

/-- An alternative that may stand in a chain: it holds no doubled operator itself. -/
def IsAlternative (line : String) : Prop :=
  hasDoubled '&' line.toList = false ∧ hasDoubled '|' line.toList = false

instance : DecidablePred IsAlternative := fun _ => inferInstanceAs (Decidable (_ ∧ _))

theorem alternativesOf_joinDoubled {group : List String} (h : ∀ a ∈ group, IsAlternative a) :
    alternativesOf (joinDoubled '|' (group.map String.toList))
      = (group.filter fun a => !(trim a).isEmpty).map parse := by
  have hempty : ∀ a : String, (trim a).isEmpty = (trimBy isBlank a.toList).isEmpty := by
    intro a
    rw [trim, Bool.eq_iff_iff, String.isEmpty_iff, List.isEmpty_iff, String.ofList_eq_empty_iff]
  have hparts : ((splitDoubled '|' (joinDoubled '|' (group.map String.toList))).map
        (trimBy isBlank)).filter (fun part => !part.isEmpty)
      = (group.filter fun a => !(trim a).isEmpty).map fun a => trimBy isBlank a.toList := by
    by_cases hne : group = []
    · subst hne
      rfl
    · rw [map_splitDoubled_joinDoubled isBlank_bar ignoresMargins_trimBy (by simpa using hne),
        List.map_map, List.filter_map]
      · simp only [Function.comp_def, hempty]
      · intro p hp
        obtain ⟨a, ha, rfl⟩ := List.mem_map.mp hp
        exact (h a ha).2
  rw [alternativesOf, hparts, List.map_map]
  apply List.map_congr_left
  intro a ha
  obtain ⟨hand, hor⟩ := h a (List.mem_of_mem_filter ha)
  exact (parse_eq_ofPart hand hor).symm

theorem groupsOf_chainText {groups : List (List String)} (hne : groups ≠ [])
    (h : ∀ group ∈ groups, ∀ a ∈ group, IsAlternative a) :
    groupsOf (chainText groups).toList
      = groups.map fun group => (group.filter fun a => !(trim a).isEmpty).map parse := by
  rw [toList_chainText, groupsOf, map_splitDoubled_joinDoubled isBlank_ampersand
    ignoresMargins_alternativesOf (by simpa using hne), List.map_map]
  · apply List.map_congr_left
    intro group hgroup
    exact alternativesOf_joinDoubled (h group hgroup)
  · intro p hp
    obtain ⟨group, hgroup, rfl⟩ := List.mem_map.mp hp
    apply hasDoubled_joinDoubled (by decide) isBlank_ampersand
    intro q hq
    obtain ⟨a, ha, rfl⟩ := List.mem_map.mp hq
    exact (h group hgroup a ha).1

/-- A chain of two groups or more, or with a group of two alternatives or more, is read as
    these groups; blank alternatives are left out. -/
theorem parse_chainText {groups : List (List String)}
    (h : ∀ group ∈ groups, ∀ a ∈ group, IsAlternative a)
    (hlong : 2 ≤ groups.length ∨ ∃ group ∈ groups, 2 ≤ group.length) :
    parse (chainText groups)
      = conditional (groups.map fun group =>
          (group.filter fun a => !(trim a).isEmpty).map parse) := by
  have hne : groups ≠ [] := by
    rintro rfl
    simp at hlong
  have hop : hasDoubled '&' (chainText groups).toList = true ∨
      hasDoubled '|' (chainText groups).toList = true := by
    rw [toList_chainText]
    by_cases hand : 2 ≤ groups.length
    · exact Or.inl (hasDoubled_joinDoubled_of_two_le (by simpa using hand))
    · -- A single group is the whole text.
      obtain ⟨group, hgroup, hor⟩ := hlong.resolve_left hand
      have hpos := List.length_pos_of_ne_nil hne
      obtain ⟨only, rfl⟩ := List.length_eq_one_iff.mp (show groups.length = 1 by omega)
      rw [List.mem_singleton.mp hgroup] at hor
      right
      rw [List.map_singleton, joinDoubled, List.intercalate_singleton]
      exact hasDoubled_joinDoubled_of_two_le (by simpa using hor)
  rw [parse_eq_conditional hop, groupsOf_chainText hne h]

end LineShell.Tree
