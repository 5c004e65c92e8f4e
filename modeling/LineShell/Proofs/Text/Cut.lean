/-
  LineShell.Proofs.Text.Cut

  Cutting a text at the first occurrence of an operator.

  A cut loses nothing, and the operator does not occur in what comes before it
  (`eq_of_cutAt?`); there is no cut exactly where the operator does not occur at
  all (`cutAt?_eq_none_iff`).  The pieces between doubled operators are what is left
  by one cut after another (`pieces_splitDoubled`).
-/

import Mathlib.Data.List.Infix
import LineShell.Proofs.Text.Blank
import LineShell.Proofs.Text.Doubled
import LineShell.Text.Cut

namespace LineShell.Text

variable {c d : Char} {op cs w before after : List Char}

theorem cutAt?_of_start (h : op <+: c :: cs) :
    cutAt? op (c :: cs) = some ([], (c :: cs).drop op.length) := by
  rw [cutAt?, if_pos (List.isPrefixOf_iff_prefix.mpr h)]

theorem cutAt?_of_not_start (h : ¬ op <+: c :: cs) :
    cutAt? op (c :: cs) = (cutAt? op cs).map fun (before, after) => (c :: before, after) := by
  rw [cutAt?, if_neg (fun hp => h (List.isPrefixOf_iff_prefix.mp hp))]

/-- A character that the operator does not begin with goes before the cut. -/
theorem cutAt?_cons (hc : c ≠ d) :
    cutAt? (d :: op) (c :: cs)
      = (cutAt? (d :: op) cs).map fun (before, after) => (c :: before, after) := by
  apply cutAt?_of_not_start
  rw [List.cons_prefix_cons]
  exact fun h => hc h.1.symm

/-- A character that the operator does not hold goes behind the cut. -/
theorem cutAt?_concat (hop : op ≠ []) (hc : c ∉ op) :
    cutAt? op (cs ++ [c]) = (cutAt? op cs).map fun (before, after) => (before, after ++ [c]) := by
  -- The operator begins the longer text exactly where it begins the shorter one.
  have hpre : ∀ l, op <+: l ++ [c] ↔ op <+: l := by
    intro l
    rw [List.prefix_concat_iff]
    constructor
    · rintro (rfl | h)
      · exact absurd (by simp) hc
      · exact h
    · exact Or.inr
  induction cs with
  | nil =>
    have hno : ¬ op <+: [c] := by
      rw [show [c] = [] ++ [c] from rfl, hpre, List.prefix_nil]
      exact hop
    rw [List.nil_append, cutAt?_of_not_start hno]
    rfl
  | cons x cs ih =>
    have hx : op <+: x :: (cs ++ [c]) ↔ op <+: x :: cs := hpre (x :: cs)
    by_cases h : op <+: x :: cs
    · rw [List.cons_append, cutAt?_of_start (hx.mpr h), cutAt?_of_start h, Option.map_some,
        ← List.cons_append, List.drop_append_of_le_length h.length_le]
    · rw [List.cons_append, cutAt?_of_not_start (fun h' => h (hx.mp h')),
        cutAt?_of_not_start h, ih, Option.map_map, Option.map_map]
      rfl

/-- There is no cut exactly where the operator does not occur. -/
theorem cutAt?_eq_none_iff (hop : op ≠ []) : cutAt? op cs = none ↔ ¬ op <:+: cs := by
  induction cs with
  | nil => simp [cutAt?, hop]
  | cons c cs ih =>
    by_cases h : op <+: c :: cs
    · simp [cutAt?_of_start h, h.isInfix]
    · rw [cutAt?_of_not_start h, Option.map_eq_none_iff, ih, List.infix_cons_iff]
      simp [h]

/-- A cut loses nothing and is at the first occurrence. -/
theorem eq_of_cutAt? (h : cutAt? op cs = some (before, after)) :
    cs = before ++ op ++ after ∧ (op ≠ [] → ¬ op <:+: before) := by
  induction cs generalizing before with
  | nil => simp [cutAt?] at h
  | cons c cs ih =>
    by_cases hp : op <+: c :: cs
    · rw [cutAt?_of_start hp, Option.some.injEq, Prod.mk.injEq] at h
      obtain ⟨rfl, rfl⟩ := h
      refine ⟨?_, ?_⟩
      · rw [List.nil_append]
        exact (List.prefix_iff_eq_append.mp hp).symm
      · intro hop hin
        exact hop (List.eq_nil_of_infix_nil hin)
    · rw [cutAt?_of_not_start hp, Option.map_eq_some_iff] at h
      obtain ⟨⟨before', after'⟩, hcut, heq⟩ := h
      rw [Prod.mk.injEq] at heq
      obtain ⟨rfl, rfl⟩ := heq
      obtain ⟨hcs, hfirst⟩ := ih hcut
      refine ⟨by rw [hcs]; rfl, ?_⟩
      intro hop hin
      rcases List.infix_cons_iff.mp hin with hin | hin
      · -- An occurrence at the front would have been the cut.
        apply hp
        rw [hcs, List.append_assoc]
        exact hin.trans (List.prefix_append (c :: before') _)
      · exact hfirst hop hin

/-- The cut at an operator of one character. -/
theorem cutAt?_append_single (hw : d ∉ w) :
    cutAt? [d] (w ++ d :: after) = some (w, after) := by
  induction w with
  | nil => rw [List.nil_append, cutAt?_of_start (by simp)]; rfl
  | cons c w ih =>
    rw [List.mem_cons, not_or] at hw
    rw [List.cons_append, cutAt?_cons (Ne.symm hw.1), ih hw.2]
    rfl

/-- The cut at a doubled operator. -/
theorem cutAt?_append_doubled (hw : hasDoubled d w = false) (hlast : w.getLast? ≠ some d) :
    cutAt? [d, d] (w ++ d :: d :: after) = some (w, after) := by
  induction w with
  | nil => rw [List.nil_append, cutAt?_of_start (by simp)]; rfl
  | cons c w ih =>
    have hno : ¬ [d, d] <+: c :: (w ++ d :: d :: after) := by
      intro h
      cases w with
      | nil =>
        obtain ⟨rfl, -⟩ := List.cons_prefix_cons.mp h
        exact hlast rfl
      | cons c' w =>
        obtain ⟨rfl, h'⟩ := List.cons_prefix_cons.mp h
        obtain ⟨rfl, -⟩ := List.cons_prefix_cons.mp h'
        simp [hasDoubled] at hw
    have hw' : hasDoubled d w = false :=
      hasDoubled_of_isInfix (List.suffix_cons c w).isInfix hw
    have hlast' : w.getLast? ≠ some d := by
      cases w with
      | nil => simp
      | cons c' w => simpa using hlast
    rw [List.cons_append, cutAt?_of_not_start hno, ih hw' hlast']
    rfl

/-- The pieces of a text that is cut at the first occurrence of an operator, then behind it at the
    next one, and so on. -/
inductive Pieces (op : List Char) : List Char → List (List Char) → Prop
  | whole {cs : List Char} (h : cutAt? op cs = none) : Pieces op cs [cs]
  | cut {cs before after : List Char} {pieces : List (List Char)}
      (h : cutAt? op cs = some (before, after)) (hpieces : Pieces op after pieces) :
      Pieces op cs (before :: pieces)

/-- The pieces between the matches are those of cutting at one match after another. -/
theorem pieces_splitDoubled (d : Char) (cs : List Char) :
    Pieces [d, d] cs (splitDoubled d cs) := by
  fun_induction splitDoubled d cs with
  | case1 c c' cs h ih =>
    obtain ⟨rfl, rfl⟩ := h
    have hcut : cutAt? [c', c'] ([] ++ c' :: c' :: cs) = some ([], cs) :=
      cutAt?_append_doubled rfl (by simp)
    exact .cut hcut ih
  | case2 c c' cs h ih =>
    have hno : ¬ [d, d] <+: c :: c' :: cs := by
      intro hstart
      obtain ⟨rfl, hnext⟩ := List.cons_prefix_cons.mp hstart
      obtain ⟨rfl, -⟩ := List.cons_prefix_cons.mp hnext
      exact h ⟨rfl, rfl⟩
    generalize splitDoubled d (c' :: cs) = pieces at ih
    cases ih with
    | whole hcut => exact .whole (by rw [cutAt?_of_not_start hno, hcut]; rfl)
    | cut hcut hpieces => exact .cut (by rw [cutAt?_of_not_start hno, hcut]; rfl) hpieces
  | case3 c =>
    refine .whole ((cutAt?_eq_none_iff (List.cons_ne_nil _ _)).mpr ?_)
    exact hasDoubled_eq_false_iff.mp hasDoubled_singleton
  | case4 => exact .whole rfl

end LineShell.Text
