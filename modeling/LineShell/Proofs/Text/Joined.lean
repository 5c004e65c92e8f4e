/-
  LineShell.Proofs.Text.Joined

  Texts put together with operators between them.

  Whether an operator stands in a text, and how the pieces between the operators
  are read, does not depend on the margins of the text as long as the operator
  is no blank and the reading of a piece ignores margins.

  Parts without an operator, joined by that operator with a space on both sides,
  come back as the pieces (`map_splitDoubled_joinDoubled`).  The spaces keep a
  part that ends or begins with half an operator away from the operator itself.
-/

import LineShell.Proofs.Text.Blank
import LineShell.Proofs.Text.Doubled

namespace LineShell.Text

variable {α : Type*} {d : Char} {g : List Char → α}

/-! ## Readings that do not depend on margins -/

theorem ne_of_isBlank {c : Char} (hd : isBlank d = false) (hc : isBlank c = true) : c ≠ d := by
  rintro rfl
  rw [hd] at hc
  exact Bool.false_ne_true hc

theorem ignoresMargins_hasDoubled (hd : isBlank d = false) : IgnoresMargins (hasDoubled d) where
  cons {c cs} hc := hasDoubled_cons_of_ne (ne_of_isBlank hd hc) cs
  concat {c cs} hc := by
    simpa using hasDoubled_append_cons (ne_of_isBlank hd hc) cs []

theorem ignoresMargins_mem (hd : isBlank d = false) : IgnoresMargins fun cs => d ∈ cs where
  cons hc := by simp [Ne.symm (ne_of_isBlank hd hc)]
  concat hc := by simp [Ne.symm (ne_of_isBlank hd hc)]

/-- Reading the pieces of a text, where the reading of a piece ignores its margins. -/
theorem ignoresMargins_map_splitDoubled (hd : isBlank d = false) (hg : IgnoresMargins g) :
    IgnoresMargins fun cs => (splitDoubled d cs).map g where
  cons {c cs} hc := by
    obtain ⟨p, ps, h⟩ := List.exists_cons_of_ne_nil (splitDoubled_ne_nil d cs)
    show (splitDoubled d (c :: cs)).map g = (splitDoubled d cs).map g
    rw [splitDoubled_cons (ne_of_isBlank hd hc), h, List.modifyHead_cons, List.map_cons,
      hg.cons hc, List.map_cons]
  concat {c cs} hc := by
    have hno : d ∉ [c] := by simpa using Ne.symm (ne_of_isBlank hd hc)
    obtain ⟨pieces, last, h₁, h₂⟩ := splitDoubled_append_right cs hno
    show (splitDoubled d (cs ++ [c])).map g = (splitDoubled d cs).map g
    rw [h₁, h₂, List.map_append, List.map_append, List.map_singleton, List.map_singleton,
      hg.concat hc]

/-- A character that is not the operator, put behind a text, goes to its last piece. -/
theorem splitOn_concat {c : Char} (cs : List Char) (hc : c ≠ d) :
    ∃ pieces last, cs.splitOn d = pieces ++ [last] ∧
      (cs ++ [c]).splitOn d = pieces ++ [last ++ [c]] := by
  induction cs with
  | nil => exact ⟨[], [], rfl, List.splitOn_eq_singleton (by simpa using Ne.symm hc)⟩
  | cons x cs ih =>
    obtain ⟨pieces, last, h₁, h₂⟩ := ih
    rw [List.cons_append, List.splitOn_cons_eq_if_modifyHead,
      List.splitOn_cons_eq_if_modifyHead, h₁, h₂]
    by_cases hx : (x == d) = true
    · rw [if_pos hx, if_pos hx]
      exact ⟨[] :: pieces, last, rfl, rfl⟩
    · rw [if_neg hx, if_neg hx]
      cases pieces with
      | nil => exact ⟨[], x :: last, rfl, rfl⟩
      | cons p pieces => exact ⟨(x :: p) :: pieces, last, rfl, rfl⟩

theorem ignoresMargins_map_splitOn (hd : isBlank d = false) (hg : IgnoresMargins g) :
    IgnoresMargins fun cs => (cs.splitOn d).map g where
  cons {c cs} hc := by
    have hcd : ¬ (c == d) = true := by simpa using ne_of_isBlank hd hc
    obtain ⟨p, ps, h⟩ := List.exists_cons_of_ne_nil (List.splitOn_ne_nil d cs)
    show ((c :: cs).splitOn d).map g = (cs.splitOn d).map g
    rw [List.splitOn_cons_eq_if_modifyHead, if_neg hcd, h, List.modifyHead_cons,
      List.map_cons, hg.cons hc, List.map_cons]
  concat {c cs} hc := by
    obtain ⟨pieces, last, h₁, h₂⟩ := splitOn_concat cs (ne_of_isBlank hd hc)
    show ((cs ++ [c]).splitOn d).map g = (cs.splitOn d).map g
    rw [h₁, h₂, List.map_append, List.map_append, List.map_singleton, List.map_singleton,
      hg.concat hc]

/-! ## Joined parts -/

/-- What holds of the parts and is kept by joining holds of the joined text. -/
theorem intercalate_induction {P : List Char → Prop} {sep : List Char}
    {parts : List (List Char)} (nil : P []) (single : ∀ p ∈ parts, P p)
    (join : ∀ p q, P p → P q → P (p ++ sep ++ q)) : P (sep.intercalate parts) := by
  induction parts with
  | nil => exact nil
  | cons p parts ih =>
    have hp := single p List.mem_cons_self
    have hrest := ih fun q hq => single q (List.mem_cons_of_mem _ hq)
    cases parts with
    | nil => rwa [List.intercalate_singleton]
    | cons q parts =>
      rw [List.intercalate_cons_cons]
      exact join p _ hp hrest

/-- The blanks of a joined text are those of its parts, if the separator holds none. -/
theorem withoutBlanks_intercalate {sep : List Char} (hsep : ∀ c ∈ sep, isBlank c = false)
    (parts : List (List Char)) :
    withoutBlanks (sep.intercalate parts) = sep.intercalate (parts.map withoutBlanks) := by
  induction parts with
  | nil => rfl
  | cons p parts ih =>
    cases parts with
    | nil => rw [List.intercalate_singleton, List.map_singleton, List.intercalate_singleton]
    | cons q parts =>
      rw [List.intercalate_cons_cons, withoutBlanks_append, withoutBlanks_append, ih,
        withoutBlanks_eq_self hsep]
      exact List.intercalate_cons_cons.symm

/-- The text that parts give with an operator between two neighbours. -/
def joinDoubled (d : Char) (parts : List (List Char)) : List Char :=
  [' ', d, d, ' '].intercalate parts

theorem joinDoubled_cons_cons (p q : List Char) (ps : List (List Char)) :
    joinDoubled d (p :: q :: ps) = (p ++ [' ']) ++ d :: d :: ' ' :: joinDoubled d (q :: ps) := by
  simp [joinDoubled, List.intercalate_cons_cons]

/-- Parts without an operator are read off the text that they give together. -/
theorem map_splitDoubled_joinDoubled (hd : isBlank d = false) (hg : IgnoresMargins g)
    {parts : List (List Char)} (hne : parts ≠ []) (hno : ∀ p ∈ parts, hasDoubled d p = false) :
    (splitDoubled d (joinDoubled d parts)).map g = parts.map g := by
  have hsp : ' ' ≠ d := ne_of_isBlank hd isBlank_space
  induction parts with
  | nil => exact absurd rfl hne
  | cons p parts ih =>
    have hp : hasDoubled d p = false := hno p List.mem_cons_self
    cases parts with
    | nil => simp [joinDoubled, splitDoubled_eq_singleton hp]
    | cons q parts =>
      have ih' := ih (List.cons_ne_nil q parts) fun r hr => hno r (List.mem_cons_of_mem _ hr)
      -- The space behind the part keeps it from completing the operator.
      have hp' : hasDoubled d (p ++ [' ']) = false := by
        rw [(ignoresMargins_hasDoubled hd).concat isBlank_space, hp]
      have hlast : (p ++ [' ']).getLast? ≠ some d := by simpa using hsp
      have hrest : (splitDoubled d (' ' :: joinDoubled d (q :: parts))).map g
          = (splitDoubled d (joinDoubled d (q :: parts))).map g :=
        (ignoresMargins_map_splitDoubled hd hg).cons isBlank_space
      rw [joinDoubled_cons_cons, splitDoubled_append_doubled _ hp' hlast, List.map_cons,
        hg.concat isBlank_space, hrest, ih', ← List.map_cons]

/-- An operator of another character stands in joined parts only where it stands in one
    of them. -/
theorem hasDoubled_joinDoubled {e : Char} (hde : d ≠ e) (he : isBlank e = false)
    {parts : List (List Char)} (hno : ∀ p ∈ parts, hasDoubled e p = false) :
    hasDoubled e (joinDoubled d parts) = false := by
  have hsp : ' ' ≠ e := ne_of_isBlank he isBlank_space
  refine intercalate_induction (P := fun cs => hasDoubled e cs = false) rfl hno ?_
  intro p q hp hq
  rw [List.append_assoc, List.cons_append, hasDoubled_append_cons hsp, hp, Bool.false_or]
  simpa [hasDoubled_cons_of_ne hde, hasDoubled_cons_of_ne hsp] using hq

/-- Two parts or more give a text with an operator. -/
theorem hasDoubled_joinDoubled_of_two_le {parts : List (List Char)} (h : 2 ≤ parts.length) :
    hasDoubled d (joinDoubled d parts) = true := by
  match parts, h with
  | p :: q :: ps, _ =>
    rw [joinDoubled_cons_cons, hasDoubled_iff_infix]
    exact ⟨p ++ [' '], ' ' :: joinDoubled d (q :: ps), by simp⟩

end LineShell.Text
