/-
  LineShell.Proofs.Text.Doubled

  Cutting at doubled operators.

  A text holds a doubled operator exactly where two equal characters stand next
  to each other, and no piece between the matches holds one: the matches are
  taken from the left, so a piece never ends before its first match.  There is one
  piece more than matches (`length_splitDoubled`).

  An operator between two texts cuts at that place, provided that the first does not
  end in half of one (`splitDoubled_append_operator`); so the pieces of a text put
  together from parts without the operator are those parts
  (`splitDoubled_append_doubled`).  Any other character lets no match come or go
  (`splitDoubled_append_cons`, `splitDoubled_append_right`).
-/

import Mathlib.Data.List.Infix
import LineShell.Text.Doubled

namespace LineShell.Text

variable {d c c' : Char} {cs w : List Char}

/-! ## Where a doubled operator stands -/

@[simp] theorem hasDoubled_nil : hasDoubled d [] = false := rfl

@[simp] theorem hasDoubled_singleton : hasDoubled d [c] = false := rfl

theorem hasDoubled_cons_cons :
    hasDoubled d (c :: c' :: cs) = true ↔ (c = d ∧ c' = d) ∨ hasDoubled d (c' :: cs) = true := by
  simp only [hasDoubled, Bool.or_eq_true, Bool.and_eq_true, beq_iff_eq]

/-- A doubled operator is the operator's character twice in a row. -/
theorem hasDoubled_iff_infix : hasDoubled d cs = true ↔ [d, d] <:+: cs := by
  induction cs with
  | nil => simp
  | cons c cs ih =>
    rw [List.infix_cons_iff, ← ih]
    cases cs with
    | nil => simp
    | cons c' cs =>
      rw [hasDoubled_cons_cons]
      simp only [List.cons_prefix_cons, List.nil_prefix, and_true, eq_comm (a := d)]

theorem hasDoubled_eq_false_iff : hasDoubled d cs = false ↔ ¬ [d, d] <:+: cs := by
  rw [← hasDoubled_iff_infix, Bool.not_eq_true]

/-- A part of a text without the doubled operator does not hold it either. -/
theorem hasDoubled_of_isInfix (h : w <:+: cs) (hcs : hasDoubled d cs = false) :
    hasDoubled d w = false := by
  rw [hasDoubled_eq_false_iff] at hcs ⊢
  exact fun hw => hcs (hw.trans h)

theorem hasDoubled_eq_false_of_not_mem (h : d ∉ cs) : hasDoubled d cs = false := by
  rw [hasDoubled_eq_false_iff]
  exact fun hd => h (hd.subset (by simp))

/-- A character that is not the operator's keeps what is before it and what is
    behind it apart. -/
theorem hasDoubled_append_cons (hc : c ≠ d) (l r : List Char) :
    hasDoubled d (l ++ c :: r) = (hasDoubled d l || hasDoubled d r) := by
  induction l with
  | nil =>
    cases r with
    | nil => rfl
    | cons c' r => simp [hasDoubled, hc]
  | cons a l ih =>
    cases l with
    | nil =>
      have hcd : (c == d) = false := beq_eq_false_iff_ne.mpr hc
      show (a == d && c == d || hasDoubled d (c :: r)) = hasDoubled d r
      rw [show hasDoubled d (c :: r) = hasDoubled d r from ih, hcd, Bool.and_false, Bool.false_or]
    | cons b l =>
      simp only [List.cons_append, hasDoubled] at ih ⊢
      rw [ih, Bool.or_assoc]

theorem hasDoubled_cons_of_ne (hc : c ≠ d) (cs : List Char) :
    hasDoubled d (c :: cs) = hasDoubled d cs := by
  simpa using hasDoubled_append_cons hc [] cs

/-! ## The pieces -/

theorem splitDoubled_ne_nil (d : Char) (cs : List Char) : splitDoubled d cs ≠ [] := by
  fun_induction splitDoubled d cs with
  | case1 => simp
  | case2 c c' cs h ih => simpa using ih
  | case3 => simp
  | case4 => simp

/-- A text without the operator is its only piece. -/
theorem splitDoubled_eq_singleton (h : hasDoubled d cs = false) : splitDoubled d cs = [cs] := by
  fun_induction splitDoubled d cs with
  | case1 c c' cs hd ih =>
    obtain ⟨rfl, rfl⟩ := hd
    simp [hasDoubled] at h
  | case2 c c' cs hd ih =>
    have h' : hasDoubled d (c' :: cs) = false := by
      simp only [hasDoubled, Bool.or_eq_false_iff] at h
      exact h.2
    rw [ih h']
    rfl
  | case3 => rfl
  | case4 => rfl

theorem splitDoubled_cons (hc : c ≠ d) :
    splitDoubled d (c :: cs) = (splitDoubled d cs).modifyHead (c :: ·) := by
  cases cs with
  | nil => rfl
  | cons c' cs => rw [splitDoubled, if_neg (fun h => hc h.1)]

/-- The pieces of what stands before an operator, and of what stands behind it.  The text before
    it must not end in half an operator, or the match would begin there. -/
theorem splitDoubled_append_operator (r : List Char) (hlast : w.getLast? ≠ some d) :
    splitDoubled d (w ++ d :: d :: r) = splitDoubled d w ++ splitDoubled d r := by
  fun_induction splitDoubled d w with
  | case1 c c' cs h ih =>
    have hlast' : cs.getLast? ≠ some d := by
      cases cs with
      | nil => simp
      | cons _ _ => simpa using hlast
    rw [List.cons_append, List.cons_append, splitDoubled, if_pos h, ih hlast', List.cons_append]
  | case2 c c' cs h ih =>
    obtain ⟨p, ps, hp⟩ := List.exists_cons_of_ne_nil (splitDoubled_ne_nil d (c' :: cs))
    have ih' := ih (by simpa using hlast)
    rw [List.cons_append] at ih'
    rw [List.cons_append, List.cons_append, splitDoubled, if_neg h, ih', hp]
    rfl
  | case3 c =>
    have hc : c ≠ d := by simpa using hlast
    simp [splitDoubled, hc]
  | case4 => simp [splitDoubled]

/-- The pieces of a part and of what follows it behind an operator. -/
theorem splitDoubled_append_doubled (r : List Char) (h : hasDoubled d w = false)
    (hlast : w.getLast? ≠ some d) :
    splitDoubled d (w ++ d :: d :: r) = w :: splitDoubled d r := by
  rw [splitDoubled_append_operator r hlast, splitDoubled_eq_singleton h]
  rfl

/-- A character that is not the operator's keeps the matches before it and those behind it
    apart, and stands in the one piece that they share. -/
theorem splitDoubled_append_cons (hc : c ≠ d) (l r : List Char) :
    ∃ before last first after, splitDoubled d l = before ++ [last] ∧
      splitDoubled d r = first :: after ∧
      splitDoubled d (l ++ c :: r) = before ++ (last ++ c :: first) :: after := by
  obtain ⟨first, after, hr⟩ := List.exists_cons_of_ne_nil (splitDoubled_ne_nil d r)
  have hright : splitDoubled d (c :: r) = (c :: first) :: after := by
    rw [splitDoubled_cons hc, hr]
    rfl
  fun_induction splitDoubled d l with
  | case1 x y cs h ih =>
    obtain ⟨before, last, _, _, hl, hr', hboth⟩ := ih
    refine ⟨[] :: before, last, _, _, by rw [hl]; rfl, hr', ?_⟩
    rw [List.cons_append, List.cons_append, splitDoubled, if_pos h, hboth]
    rfl
  | case2 x y cs h ih =>
    obtain ⟨before, last, _, _, hl, hr', hboth⟩ := ih
    rw [List.cons_append] at hboth
    rw [hl, List.cons_append, List.cons_append, splitDoubled, if_neg h, hboth]
    cases before with
    | nil => exact ⟨[], x :: last, _, _, rfl, hr', rfl⟩
    | cons p before => exact ⟨(x :: p) :: before, last, _, _, rfl, hr', rfl⟩
  | case3 x =>
    refine ⟨[], [x], _, _, rfl, hr, ?_⟩
    rw [List.singleton_append, splitDoubled, if_neg (fun h => hc h.2), hright]
    rfl
  | case4 => exact ⟨[], [], _, _, rfl, hr, hright⟩

/-- Characters that are not the operator's, put behind a text, go to its last piece. -/
theorem splitDoubled_append_right (cs : List Char) (hw : d ∉ w) :
    ∃ pieces last, splitDoubled d cs = pieces ++ [last] ∧
      splitDoubled d (cs ++ w) = pieces ++ [last ++ w] := by
  fun_induction splitDoubled d cs with
  | case1 c c' cs h ih =>
    obtain ⟨rfl, rfl⟩ := h
    obtain ⟨pieces, last, h₁, h₂⟩ := ih
    exact ⟨[] :: pieces, last, by rw [h₁]; rfl, by simp [splitDoubled, h₂]⟩
  | case2 c c' cs h ih =>
    obtain ⟨pieces, last, h₁, h₂⟩ := ih
    rw [h₁]
    have hcons : splitDoubled d (c :: c' :: cs ++ w)
        = (splitDoubled d (c' :: cs ++ w)).modifyHead (c :: ·) := by
      rw [List.cons_append, List.cons_append, splitDoubled, if_neg h]
    rw [hcons, h₂]
    cases pieces with
    | nil => exact ⟨[], c :: last, rfl, rfl⟩
    | cons p pieces => exact ⟨(c :: p) :: pieces, last, rfl, rfl⟩
  | case3 c =>
    refine ⟨[], [c], rfl, ?_⟩
    have hno : hasDoubled d ([c] ++ w) = false := by
      cases w with
      | nil => rfl
      | cons c' w =>
        rw [List.mem_cons, not_or] at hw
        have := hasDoubled_eq_false_of_not_mem hw.2
        rw [hasDoubled_append_cons (Ne.symm hw.1), this]
        rfl
    exact splitDoubled_eq_singleton hno
  | case4 =>
    exact ⟨[], [], rfl, splitDoubled_eq_singleton (hasDoubled_eq_false_of_not_mem hw)⟩

/-- The first piece is a beginning of the text, and what is left of the text begins
    with an operator or is nothing. -/
theorem head_splitDoubled_isPrefix :
    ∀ p ∈ (splitDoubled d cs).head?, p <+: cs := by
  fun_induction splitDoubled d cs with
  | case1 c c' cs h ih => simp
  | case2 c c' cs h ih =>
    obtain ⟨p, ps, hp⟩ := List.exists_cons_of_ne_nil (splitDoubled_ne_nil d (c' :: cs))
    rw [hp] at ih ⊢
    simpa using ih p rfl
  | case3 c => simp
  | case4 => simp

/-- The pieces with the operator between them are the text again. -/
theorem intercalate_splitDoubled (d : Char) (cs : List Char) :
    [d, d].intercalate (splitDoubled d cs) = cs := by
  fun_induction splitDoubled d cs with
  | case1 c c' cs h ih =>
    obtain ⟨rfl, rfl⟩ := h
    rw [List.intercalate_cons_of_ne_nil (splitDoubled_ne_nil _ cs), ih]
    rfl
  | case2 c c' cs h ih =>
    obtain ⟨p, ps, hp⟩ := List.exists_cons_of_ne_nil (splitDoubled_ne_nil d (c' :: cs))
    rw [hp] at ih ⊢
    cases ps with
    | nil => simpa using ih
    | cons q ps =>
      rw [List.intercalate_cons_cons] at ih
      rw [List.modifyHead_cons, List.intercalate_cons_cons, ← ih]
      rfl
  | case3 => rfl
  | case4 => rfl

/-- The last piece is an end of the text. -/
theorem isSuffix_of_splitDoubled {pieces : List (List Char)}
    (h : splitDoubled d cs = pieces ++ [w]) : w <:+ cs := by
  rw [← intercalate_splitDoubled d cs, h]
  clear h
  induction pieces with
  | nil => simp
  | cons p pieces ih =>
    rw [List.cons_append, List.intercalate_cons_of_ne_nil (by simp)]
    exact List.IsSuffix.trans ih (List.suffix_append _ _)

/-- A piece is a part of the text. -/
theorem isInfix_of_mem_splitDoubled {p : List Char} (hp : p ∈ splitDoubled d cs) : p <:+: cs := by
  induction cs using splitDoubled.induct d generalizing p with
  | case1 c c' cs h ih =>
    rw [splitDoubled, if_pos h, List.mem_cons] at hp
    rcases hp with rfl | hp
    · exact List.nil_infix
    · exact List.infix_cons (List.infix_cons (ih hp))
  | case2 c c' cs h ih =>
    rw [splitDoubled, if_neg h] at hp
    obtain ⟨q, qs, hq⟩ := List.exists_cons_of_ne_nil (splitDoubled_ne_nil d (c' :: cs))
    have hhead : q <+: c' :: cs := head_splitDoubled_isPrefix q (by rw [hq]; rfl)
    rw [hq, List.modifyHead_cons, List.mem_cons] at hp
    rcases hp with rfl | hp
    · exact (List.cons_prefix_cons.mpr ⟨rfl, hhead⟩).isInfix
    · exact List.infix_cons (ih (by rw [hq]; exact List.mem_cons_of_mem _ hp))
  | case3 c =>
    rw [splitDoubled, List.mem_singleton] at hp
    rw [hp]
  | case4 =>
    rw [splitDoubled, List.mem_singleton] at hp
    rw [hp]

/-- No piece holds the operator. -/
theorem hasDoubled_of_mem_splitDoubled {p : List Char} (hp : p ∈ splitDoubled d cs) :
    hasDoubled d p = false := by
  induction cs using splitDoubled.induct d generalizing p with
  | case1 c c' cs h ih =>
    rw [splitDoubled, if_pos h, List.mem_cons] at hp
    rcases hp with rfl | hp
    · rfl
    · exact ih hp
  | case2 c c' cs h ih =>
    rw [splitDoubled, if_neg h] at hp
    obtain ⟨q, qs, hq⟩ := List.exists_cons_of_ne_nil (splitDoubled_ne_nil d (c' :: cs))
    have hhead : q <+: c' :: cs := head_splitDoubled_isPrefix q (by rw [hq]; rfl)
    rw [hq, List.modifyHead_cons, List.mem_cons] at hp
    rcases hp with rfl | hp
    · cases q with
      | nil => rfl
      | cons a q =>
        obtain ⟨rfl, -⟩ := List.cons_prefix_cons.mp hhead
        rw [← Bool.not_eq_true, hasDoubled_cons_cons, not_or, Bool.not_eq_true]
        exact ⟨h, ih (by rw [hq]; exact List.mem_cons_self)⟩
    · exact ih (by rw [hq]; exact List.mem_cons_of_mem _ hp)
  | case3 c =>
    rw [splitDoubled, List.mem_singleton] at hp
    rw [hp]
    rfl
  | case4 =>
    rw [splitDoubled, List.mem_singleton] at hp
    rw [hp]
    rfl

/-- How many matches of a doubled operator there are, taken from the left without overlap. -/
def countDoubled (d : Char) : List Char → Nat
  | c :: c' :: cs => if c = d ∧ c' = d then countDoubled d cs + 1 else countDoubled d (c' :: cs)
  | _ => 0

theorem length_splitDoubled (d : Char) (cs : List Char) :
    (splitDoubled d cs).length = countDoubled d cs + 1 := by
  fun_induction splitDoubled d cs with
  | case1 c c' cs h ih => rw [List.length_cons, ih, countDoubled, if_pos h]
  | case2 c c' cs h ih => rw [List.length_modifyHead, ih, countDoubled, if_neg h]
  | case3 => rfl
  | case4 => rfl

end LineShell.Text
