/-
  LineShell.Proofs.Tree.Composed

  Conditionals whose text is put together from two texts.

  The groups of two texts with a doubled ampersand between them are those of the
  first and then those of the second.  With a doubled bar between them, the last
  group of the first and the first group of the second become one, and all others
  stay (`parseConditional_append`).

  The first text must not end in half of the operator: then the match would begin
  there, and leave the second half to the second text.  The second text may begin
  in any way, since matches are taken from the left.
-/

import LineShell.Proofs.Tree.Reading

namespace LineShell.Tree

open Text

variable {cs : List Char}

/-- The groups of a conditional; no other tree has any. -/
def groups : Tree → List (List Tree)
  | conditional groups => groups
  | _ => []

/-! ## Two texts and an operator between them -/

theorem alternativesOf_append_bars (r : List Char) (hlast : cs.getLast? ≠ some '|') :
    alternativesOf (cs ++ '|' :: '|' :: r) = alternativesOf cs ++ alternativesOf r := by
  simp only [alternativesOf, splitDoubled_append_operator r hlast, List.map_append,
    List.filter_append]

theorem groupsOf_append_ampersands (r : List Char) (hlast : cs.getLast? ≠ some '&') :
    groupsOf (cs ++ '&' :: '&' :: r) = groupsOf cs ++ groupsOf r := by
  rw [groupsOf, splitDoubled_append_operator r hlast, List.map_append]
  rfl

/-- A bar is no ampersand, so the piece that two bars stand in is the last one before them put
    together with the first one behind them. -/
theorem splitDoubled_append_bars (cs r : List Char) :
    ∃ before last first after, splitDoubled '&' cs = before ++ [last] ∧
      splitDoubled '&' r = first :: after ∧
      splitDoubled '&' (cs ++ '|' :: '|' :: r)
        = before ++ (last ++ '|' :: '|' :: first) :: after := by
  have hbar : '|' ≠ '&' := by decide
  obtain ⟨before, last, first', after', hcs, hbarred, hboth⟩ :=
    splitDoubled_append_cons hbar cs ('|' :: r)
  obtain ⟨first, after, hr⟩ := List.exists_cons_of_ne_nil (splitDoubled_ne_nil '&' r)
  rw [splitDoubled_cons hbar, hr, List.modifyHead_cons, List.cons.injEq] at hbarred
  obtain ⟨rfl, rfl⟩ := hbarred
  exact ⟨before, last, first, after, hcs, hr, hboth⟩

theorem groupsOf_append_bars (r : List Char) (hlast : cs.getLast? ≠ some '|') :
    ∃ before last first after, groupsOf cs = before ++ [last] ∧ groupsOf r = first :: after ∧
      groupsOf (cs ++ '|' :: '|' :: r) = before ++ (last ++ first) :: after := by
  obtain ⟨before, last, first, after, hcs, hr, hboth⟩ := splitDoubled_append_bars cs r
  -- The last piece ends as the whole text does, if it is not empty.
  have hpiece : last.getLast? ≠ some '|' := by
    intro hbar
    obtain ⟨front, rfl⟩ := isSuffix_of_splitDoubled hcs
    exact hlast (by rw [List.getLast?_append, hbar, Option.some_or])
  refine ⟨before.map alternativesOf, alternativesOf last, alternativesOf first,
    after.map alternativesOf, ?_, ?_, ?_⟩
  · rw [groupsOf, hcs, List.map_append, List.map_singleton]
  · rw [groupsOf, hr, List.map_cons]
  · rw [groupsOf, hboth, List.map_append, List.map_cons, alternativesOf_append_bars first hpiece]

/-! ## Conditionals -/

/-- Reading a conditional takes texts with an operator between them apart at that operator. -/
theorem parseConditional_append (a b : String) :
    (a.toList.getLast? ≠ some '&' →
      parseConditional (a ++ "&&" ++ b)
        = conditional ((parseConditional a).groups ++ (parseConditional b).groups)) ∧
    (a.toList.getLast? ≠ some '|' →
      ∃ before last first after, (parseConditional a).groups = before ++ [last] ∧
        (parseConditional b).groups = first :: after ∧
        parseConditional (a ++ "||" ++ b)
          = conditional (before ++ (last ++ first) :: after)) := by
  have hand : (a ++ "&&" ++ b).toList = a.toList ++ '&' :: '&' :: b.toList := by simp
  have hor : (a ++ "||" ++ b).toList = a.toList ++ '|' :: '|' :: b.toList := by simp
  constructor
  · intro hlast
    rw [parseConditional, hand, groupsOf_append_ampersands _ hlast]
    rfl
  · intro hlast
    obtain ⟨before, last, first, after, ha, hb, hboth⟩ := groupsOf_append_bars b.toList hlast
    refine ⟨before, last, first, after, ha, hb, ?_⟩
    rw [parseConditional, hor, hboth]

/-- Texts that end or begin in half of the other operator, or begin in half of the one that
    stands between them. -/
theorem parseConditional_append_halves :
    ("x || y |".toList.getLast? ≠ some '&' ∧
      parseConditional ("x || y |" ++ "&&" ++ "& z || w")
        = conditional ((parseConditional "x || y |").groups
          ++ (parseConditional "& z || w").groups)) ∧
    ("x && y &".toList.getLast? ≠ some '|' ∧
      ∃ before last first after, (parseConditional "x && y &").groups = before ++ [last] ∧
        (parseConditional "| z && w").groups = first :: after ∧
        parseConditional ("x && y &" ++ "||" ++ "| z && w")
          = conditional (before ++ (last ++ first) :: after)) := by
  have hand : "x || y |".toList.getLast? ≠ some '&' := by decide
  have hor : "x && y &".toList.getLast? ≠ some '|' := by decide
  exact ⟨⟨hand, (parseConditional_append _ _).1 hand⟩, hor, (parseConditional_append _ _).2 hor⟩

end LineShell.Tree
