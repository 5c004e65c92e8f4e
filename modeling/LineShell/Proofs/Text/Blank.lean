/-
  LineShell.Proofs.Text.Blank

  Trimming and words.

  A text is its margins around what trimming leaves of it (`exists_eq_trimBy`),
  and trimming an already trimmed text changes nothing.  Many readings of a text
  do not depend on its margins; such a reading gives the same for a text and
  for the trimmed text (`IgnoresMargins.trim`).

  The words of two texts with a blank between them are those of the first and
  then those of the second (`wordsOf_append_cons`).  Every word is a nonempty
  part of the text without blanks, and words put together with single spaces
  are read back as they are.  Together the words hold all of a text but its blanks
  (`flatten_wordsOf`).
-/

import Mathlib.Data.List.DropRight
import Mathlib.Data.List.Infix
import LineShell.Text.Blank

namespace LineShell.Text

variable {α : Type*} {p : Char → Bool} {b c : Char} {cs w : List Char}

/-! ## Trimming -/

theorem trimBy_eq_rdropWhile : trimBy p cs = (cs.dropWhile p).rdropWhile p := rfl

theorem trimBy_cons (hc : p c = true) : trimBy p (c :: cs) = trimBy p cs := by
  rw [trimBy_eq_rdropWhile, List.dropWhile_cons_of_pos hc, ← trimBy_eq_rdropWhile]

theorem trimBy_concat (hc : p c = true) : trimBy p (cs ++ [c]) = trimBy p cs := by
  simp only [trimBy_eq_rdropWhile, List.dropWhile_append]
  split
  · next h =>
    rw [List.isEmpty_iff] at h
    rw [h, List.dropWhile_cons_of_pos hc]
    rfl
  · exact List.rdropWhile_concat_pos p _ c hc

/-- A text is what trimming leaves of it between two margins. -/
theorem exists_eq_trimBy (p : Char → Bool) (cs : List Char) :
    ∃ l r, (∀ c ∈ l, p c = true) ∧ (∀ c ∈ r, p c = true) ∧ cs = l ++ trimBy p cs ++ r := by
  refine ⟨cs.takeWhile p, (cs.dropWhile p).rtakeWhile p, ?_, ?_, ?_⟩
  · exact fun c hc => List.mem_takeWhile_imp hc
  · exact fun c hc => List.mem_rtakeWhile_imp hc
  · rw [trimBy_eq_rdropWhile, List.append_assoc, List.rdropWhile_append_rtakeWhile,
      List.takeWhile_append_dropWhile]

theorem trimBy_isInfix : trimBy p cs <:+: cs := by
  obtain ⟨l, r, -, -, h⟩ := exists_eq_trimBy p cs
  exact ⟨l, r, h.symm⟩

/-- What trimming leaves begins with nothing that is trimmed. -/
theorem dropWhile_trimBy : (trimBy p cs).dropWhile p = trimBy p cs := by
  rw [List.dropWhile_eq_self_iff]
  intro hl
  have hpre : trimBy p cs <+: cs.dropWhile p := List.rdropWhile_prefix p _
  have hlen : 0 < (cs.dropWhile p).length := Nat.lt_of_lt_of_le hl hpre.length_le
  rw [hpre.getElem hl]
  exact List.dropWhile_get_zero_not p cs hlen

theorem trimBy_trimBy : trimBy p (trimBy p cs) = trimBy p cs := by
  rw [trimBy_eq_rdropWhile, dropWhile_trimBy, trimBy_eq_rdropWhile, List.rdropWhile_idempotent]

/-- Trimming leaves what lies between two margins, if nothing of it is trimmed. -/
theorem trimBy_between {l r : List Char} (hl : ∀ c ∈ l, p c = true) (hr : ∀ c ∈ r, p c = true)
    (hne : cs ≠ []) (hcs : ∀ c ∈ cs, p c = false) : trimBy p (l ++ cs ++ r) = cs := by
  have hdrop : ∀ ds : List Char, ds ≠ [] → (∀ c ∈ ds, p c = false) → ∀ more,
      (ds ++ more).dropWhile p = ds ++ more := by
    intro ds hne hds more
    obtain ⟨d, ds, rfl⟩ := List.exists_cons_of_ne_nil hne
    exact List.dropWhile_cons_of_neg (by simp [hds d List.mem_cons_self])
  have hlast : (cs ++ r).reverse.dropWhile p = cs.reverse := by
    rw [List.reverse_append, List.dropWhile_append_of_pos (by simpa using hr)]
    simpa using hdrop cs.reverse (by simpa using hne) (by simpa using hcs) []
  rw [trimBy, List.append_assoc, List.dropWhile_append_of_pos hl, hdrop cs hne hcs, hlast,
    List.reverse_reverse]

/-- A reading of a text that does not depend on the blanks before it and behind it. -/
structure IgnoresMargins (f : List Char → α) : Prop where
  cons : ∀ {c : Char} {cs : List Char}, isBlank c = true → f (c :: cs) = f cs
  concat : ∀ {c : Char} {cs : List Char}, isBlank c = true → f (cs ++ [c]) = f cs

namespace IgnoresMargins

variable {f : List Char → α}

theorem append_left (hf : IgnoresMargins f) (hw : ∀ c ∈ w, isBlank c = true) :
    f (w ++ cs) = f cs := by
  induction w with
  | nil => rfl
  | cons c w ih =>
    rw [List.cons_append, hf.cons (hw c List.mem_cons_self)]
    exact ih fun c hc => hw c (List.mem_cons_of_mem _ hc)

theorem append_right (hf : IgnoresMargins f) (hw : ∀ c ∈ w, isBlank c = true) :
    f (cs ++ w) = f cs := by
  induction w generalizing cs with
  | nil => rw [List.append_nil]
  | cons c w ih =>
    rw [← List.singleton_append, ← List.append_assoc,
      ih fun c hc => hw c (List.mem_cons_of_mem _ hc)]
    exact hf.concat (hw c List.mem_cons_self)

/-- The trimmed text is read as the text. -/
theorem trim (hf : IgnoresMargins f) (cs : List Char) : f (trimBy isBlank cs) = f cs := by
  obtain ⟨l, r, hl, hr, h⟩ := exists_eq_trimBy isBlank cs
  conv_rhs => rw [h, hf.append_right hr, hf.append_left hl]

theorem comp {β : Type*} (hf : IgnoresMargins f) (g : α → β) :
    IgnoresMargins fun cs => g (f cs) where
  cons hc := congrArg g (hf.cons hc)
  concat hc := congrArg g (hf.concat hc)

end IgnoresMargins

theorem ignoresMargins_trimBy : IgnoresMargins (trimBy isBlank) where
  cons := trimBy_cons
  concat := trimBy_concat

theorem isBlank_space : isBlank ' ' = true := by decide

/-! ## Words -/

@[simp] theorem wordsOf_nil : wordsOf [] = [] := rfl

/-- A blank ends a word and begins one. -/
theorem wordsOf_append_cons (hb : isBlank b = true) (l r : List Char) :
    wordsOf (l ++ b :: r) = wordsOf l ++ wordsOf r := by
  rw [wordsOf, List.splitOnP_append_cons l r hb, List.filter_append]
  rfl

theorem ignoresMargins_wordsOf : IgnoresMargins wordsOf where
  cons hc := wordsOf_append_cons hc [] _
  concat hc := by rw [wordsOf_append_cons hc, wordsOf_nil, List.append_nil]

/-- A nonempty text without blanks is its only word. -/
theorem wordsOf_eq_singleton (hw : w ≠ []) (h : ∀ c ∈ w, isBlank c = false) :
    wordsOf w = [w] := by
  rw [wordsOf, List.splitOnP_eq_singleton h, List.filter_eq_self]
  intro v hv
  rw [List.mem_singleton.mp hv]
  simpa using hw

/-- A text that begins with no blank begins with its first word, and the other words are those of
    what follows: of nothing, or of a text that begins with a blank. -/
theorem exists_eq_append_of_wordsOf (hfirst : cs.dropWhile isBlank = cs) {ws : List (List Char)}
    (h : wordsOf cs = w :: ws) :
    ∃ rest, cs = w ++ rest ∧ wordsOf rest = ws ∧ ∀ c ∈ rest.head?, isBlank c = true := by
  have hcs : cs ≠ [] := by
    rintro rfl
    cases h
  have hone : wordsOf (cs.takeWhile (!isBlank ·)) = [cs.takeWhile (!isBlank ·)] := by
    apply wordsOf_eq_singleton
    · obtain ⟨c, cs, rfl⟩ := List.exists_cons_of_ne_nil hcs
      have hc := List.dropWhile_eq_self_iff.mp hfirst (Nat.succ_pos _)
      rw [List.takeWhile_cons_of_pos (by simpa using hc)]
      exact List.cons_ne_nil _ _
    · intro c hc
      simpa using List.mem_takeWhile_imp hc
  have hsplit := (List.takeWhile_append_dropWhile (p := (!isBlank ·)) (l := cs)).symm
  have hhead := List.head?_dropWhile_not (!isBlank ·) cs
  generalize cs.takeWhile (!isBlank ·) = first at hone hsplit
  generalize cs.dropWhile (!isBlank ·) = rest at hsplit hhead
  subst hsplit
  cases rest with
  | nil =>
    rw [List.append_nil, hone] at h
    cases h
    exact ⟨[], rfl, rfl, by simp⟩
  | cons b rest =>
    have hb : isBlank b = true := by simpa using hhead
    rw [wordsOf_append_cons hb, hone] at h
    cases h
    exact ⟨b :: rest, rfl, ignoresMargins_wordsOf.cons hb, by simpa using hb⟩

/-- Words put together with single spaces. -/
theorem wordsOf_intercalate (ws : List (List Char))
    (h : ∀ w ∈ ws, w ≠ [] ∧ ∀ c ∈ w, isBlank c = false) :
    wordsOf ([' '].intercalate ws) = ws := by
  induction ws with
  | nil => rfl
  | cons w ws ih =>
    have hw := h w List.mem_cons_self
    have ih' := ih fun v hv => h v (List.mem_cons_of_mem _ hv)
    cases ws with
    | nil => simpa using wordsOf_eq_singleton hw.1 hw.2
    | cons v ws =>
      rw [List.intercalate_cons_cons, List.append_assoc, List.singleton_append,
        wordsOf_append_cons isBlank_space, wordsOf_eq_singleton hw.1 hw.2, ih']
      rfl

/-- A piece between separators holds none of them and is a part of the text. -/
theorem of_mem_splitOnP (h : w ∈ cs.splitOnP p) : (∀ c ∈ w, p c = false) ∧ w <:+: cs := by
  obtain ⟨n, hn⟩ : ∃ n, cs.length ≤ n := ⟨_, le_rfl⟩
  induction n generalizing cs with
  | zero =>
    rw [List.length_eq_zero_iff.mp (Nat.le_zero.mp hn), List.splitOnP_nil,
      List.mem_singleton] at h
    simp [h]
  | succ n ih =>
    by_cases hsep : ∃ b ∈ cs, p b = true
    · -- At a separator the text falls into two shorter ones.
      obtain ⟨b, hmem, hb⟩ := hsep
      obtain ⟨l, r, rfl⟩ := List.append_of_mem hmem
      have hlen : l.length + (r.length + 1) ≤ n + 1 := by simpa using hn
      rw [List.splitOnP_append_cons l r hb, List.mem_append] at h
      rcases h with h | h
      · obtain ⟨hno, hin⟩ := ih h (by omega)
        exact ⟨hno, hin.trans List.infix_append_left⟩
      · obtain ⟨hno, hin⟩ := ih h (by omega)
        exact ⟨hno, (List.infix_cons hin).trans List.infix_append_right⟩
    · have hno : ∀ c ∈ cs, p c = false := by
        intro c hc
        exact Bool.eq_false_iff.mpr fun hcp => hsep ⟨c, hc, hcp⟩
      rw [List.splitOnP_eq_singleton hno, List.mem_singleton] at h
      rw [h]
      exact ⟨hno, List.infix_rfl⟩

/-- A word is a nonempty part of the text without blanks. -/
theorem of_mem_wordsOf (h : w ∈ wordsOf cs) :
    w ≠ [] ∧ (∀ c ∈ w, isBlank c = false) ∧ w <:+: cs := by
  obtain ⟨hmem, hne⟩ := List.mem_filter.mp h
  obtain ⟨hno, hin⟩ := of_mem_splitOnP hmem
  exact ⟨by simpa using hne, hno, hin⟩

/-! ## Texts without their blanks -/

/-- The characters that are no blanks. -/
def withoutBlanks (cs : List Char) : List Char := cs.filter fun c => !isBlank c

@[simp] theorem withoutBlanks_append (l r : List Char) :
    withoutBlanks (l ++ r) = withoutBlanks l ++ withoutBlanks r := List.filter_append ..

@[simp] theorem withoutBlanks_withoutBlanks (cs : List Char) :
    withoutBlanks (withoutBlanks cs) = withoutBlanks cs := by
  simp [withoutBlanks]

theorem withoutBlanks_eq_self (h : ∀ c ∈ cs, isBlank c = false) : withoutBlanks cs = cs :=
  List.filter_eq_self.mpr fun c hc => by rw [h c hc]; rfl

theorem ignoresMargins_withoutBlanks : IgnoresMargins withoutBlanks where
  cons hc := List.filter_cons_of_neg (by simp [hc])
  concat {c cs} hc := by
    have hnone : withoutBlanks [c] = [] := by simp [withoutBlanks, hc]
    rw [withoutBlanks_append, hnone, List.append_nil]

/-- The words of a text hold all of it but its blanks. -/
theorem flatten_wordsOf (cs : List Char) : (wordsOf cs).flatten = withoutBlanks cs := by
  rw [wordsOf, List.flatten_filter_not_isEmpty]
  induction cs with
  | nil => rfl
  | cons c cs ih =>
    rw [List.splitOnP_cons_eq_if_modifyHead]
    by_cases hc : isBlank c = true
    · rw [if_pos hc, List.flatten_cons, List.nil_append, ih, ignoresMargins_withoutBlanks.cons hc]
    · obtain ⟨piece, pieces, h⟩ := List.exists_cons_of_ne_nil (List.splitOnP_ne_nil isBlank cs)
      rw [h, List.flatten_cons] at ih
      rw [if_neg hc, h, List.modifyHead_cons, List.flatten_cons, List.cons_append, ih]
      exact (List.filter_cons_of_pos (by simpa using hc)).symm

end LineShell.Text
