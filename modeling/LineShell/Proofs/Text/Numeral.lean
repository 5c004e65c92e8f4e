/-
  LineShell.Proofs.Text.Numeral

  Which texts are numerals, and what they denote.

  The digits of a numeral are of any script and may be of several (`digit?_eq_some_iff`).
  `Digits` is the grammar of a run of digits, with an underscore between two of them where
  there is one, and `Numeral` adds the sign and the bound on the number of digits.  A
  text is read as an integer exactly if it is a numeral between two margins of padding,
  and then as the number that the numeral denotes (`integer?_eq_some_iff`).
-/

import LineShell.Proofs.Text.Blank
import LineShell.Text.Numeral
import Mathlib.Data.Nat.Digits.Defs

namespace LineShell.Text

variable {c : Char} {cs : List Char} {d : Nat} {ds : List Nat}

/-! ## Digits -/

/-- No character is a digit of two scripts. -/
theorem digitZeros_apart :
    ∀ first ∈ digitZeros, ∀ second ∈ digitZeros, first ≤ second → second ≤ first + 9 →
      first = second := by decide +kernel

/-- The digits of a script are the ten characters from its zero on. -/
theorem digit?_eq_some_iff :
    digit? c = some d ↔ ∃ first ∈ digitZeros, c.toNat = first + d ∧ d < 10 := by
  rw [digit?, Option.map_eq_some_iff]
  constructor
  · rintro ⟨first, hfirst, rfl⟩
    have hmem := List.mem_of_find?_eq_some hfirst
    have hbounds := List.find?_some hfirst
    rw [Bool.and_eq_true, decide_eq_true_eq, decide_eq_true_eq] at hbounds
    exact ⟨first, hmem, by omega, by omega⟩
  · rintro ⟨first, hfirst, hc, hd⟩
    refine ⟨first, ?_, by omega⟩
    have hsome : (digitZeros.find? fun first => first ≤ c.toNat && c.toNat ≤ first + 9).isSome := by
      rw [List.find?_isSome]
      exact ⟨first, hfirst, by simp [hc]; omega⟩
    obtain ⟨second, hsecond⟩ := Option.isSome_iff_exists.mp hsome
    have hmem := List.mem_of_find?_eq_some hsecond
    have hbounds := List.find?_some hsecond
    rw [Bool.and_eq_true, decide_eq_true_eq, decide_eq_true_eq] at hbounds
    rw [hsecond]
    rcases Nat.le_total first second with hle | hle
    · rw [digitZeros_apart first hfirst second hmem hle (by omega)]
    · rw [digitZeros_apart second hmem first hfirst hle (by omega)]

/-- A digit is no padding. -/
theorem isPadding_of_digit (h : digit? c = some d) : isPadding c = false := by
  have hall : ∀ first ∈ digitZeros, ∀ d < 10, isPadding (Char.ofNat (first + d)) = false := by
    decide +kernel
  obtain ⟨first, hfirst, hc, hd⟩ := digit?_eq_some_iff.mp h
  have hno := hall first hfirst d hd
  rwa [← hc, Char.ofNat_toNat] at hno

/-- A nonempty run of digits with the given values, where an underscore may stand between two. -/
inductive Digits : List Char → List Nat → Prop
  | last {c : Char} {d : Nat} (hc : digit? c = some d) : Digits [c] [d]
  | next {c : Char} {d : Nat} {cs : List Char} {ds : List Nat} (hc : digit? c = some d)
      (h : Digits cs ds) : Digits (c :: cs) (d :: ds)
  | spaced {c : Char} {d : Nat} {cs : List Char} {ds : List Nat} (hc : digit? c = some d)
      (h : Digits cs ds) : Digits (c :: '_' :: cs) (d :: ds)

theorem digit?_underscore : digit? '_' = none := by decide +kernel

theorem digit?_plus : digit? '+' = none := by decide +kernel

theorem digit?_minus : digit? '-' = none := by decide +kernel

namespace Digits

theorem ne_nil (h : Digits cs ds) : cs ≠ [] := by
  cases h <;> exact List.cons_ne_nil _ _

/-- A run begins with a digit. -/
theorem exists_head (h : Digits cs ds) : ∃ c d rest, cs = c :: rest ∧ digit? c = some d := by
  cases h <;> exact ⟨_, _, _, rfl, ‹_›⟩

theorem isPadding_of_mem (h : Digits cs ds) (hc : c ∈ cs) : isPadding c = false := by
  induction h with
  | last hd =>
    cases List.mem_singleton.mp hc
    exact isPadding_of_digit hd
  | next hd _ ih =>
    rcases List.mem_cons.mp hc with rfl | hc
    · exact isPadding_of_digit hd
    · exact ih hc
  | spaced hd _ ih =>
    rcases List.mem_cons.mp hc with rfl | hc
    · exact isPadding_of_digit hd
    · rcases List.mem_cons.mp hc with rfl | hc
      · decide
      · exact ih hc

end Digits

theorem digitRun?_eq_some_iff : digitRun? cs = some ds ↔ Digits cs ds := by
  constructor
  · intro h
    fun_induction digitRun? cs generalizing ds with
    | case1 => cases h
    | case2 c =>
      obtain ⟨d, hd, rfl⟩ := Option.map_eq_some_iff.mp h
      exact .last hd
    | case3 c c' cs ihspaced ihnext =>
      obtain ⟨d, hd, h⟩ := Option.bind_eq_some_iff.mp h
      dsimp only at h
      split at h
      · next hspace =>
        obtain ⟨ds, hds, ⟨⟩⟩ := Option.bind_eq_some_iff.mp h
        subst hspace
        exact .spaced hd (ihspaced hds)
      · obtain ⟨ds, hds, ⟨⟩⟩ := Option.bind_eq_some_iff.mp h
        exact .next hd (ihnext hds)
  · intro h
    induction h with
    | last hc => simp [digitRun?, hc]
    | @next c d cs ds hc h ih =>
      obtain ⟨c', d', rest, rfl, hd'⟩ := h.exists_head
      -- A digit is no underscore, so the run goes on with it.
      have hne : c' ≠ '_' := by
        rintro rfl
        rw [digit?_underscore] at hd'
        cases hd'
      simp [digitRun?, hc, hne, ih]
    | @spaced c d cs ds hc h ih => simp [digitRun?, hc, ih]

/-! ## Numerals -/

/-- The number that digits with the given values denote, the first of them the highest. -/
def valueOf (ds : List Nat) : Nat := Nat.ofDigits 10 ds.reverse

/-- What is written as a numeral: digits, not too many, and a sign before them or none. -/
inductive Numeral : List Char → Int → Prop
  | unsigned {cs : List Char} {ds : List Nat} (h : Digits cs ds) (hlen : ds.length ≤ maxDigits) :
      Numeral cs (valueOf ds)
  | plus {cs : List Char} {ds : List Nat} (h : Digits cs ds) (hlen : ds.length ≤ maxDigits) :
      Numeral ('+' :: cs) (valueOf ds)
  | minus {cs : List Char} {ds : List Nat} (h : Digits cs ds) (hlen : ds.length ≤ maxDigits) :
      Numeral ('-' :: cs) (-valueOf ds)

/-- The text is a numeral for the number, between two margins of padding. -/
def Denotes (text : String) (n : Int) : Prop :=
  ∃ l cs r, text.toList = l ++ cs ++ r ∧ (∀ c ∈ l, isPadding c = true) ∧
    (∀ c ∈ r, isPadding c = true) ∧ Numeral cs n

theorem natural?_eq_some_iff {n : Nat} :
    natural? cs = some n ↔ ∃ ds, Digits cs ds ∧ ds.length ≤ maxDigits ∧ valueOf ds = n := by
  have hvalue : ∀ ds : List Nat, ds.foldl (fun n d => 10 * n + d) 0 = valueOf ds := by
    intro ds
    rw [valueOf, Nat.ofDigits_eq_foldr, List.foldr_reverse]
    simp only [Nat.add_comm, Nat.cast_id]
  rw [natural?, Option.bind_eq_some_iff]
  simp only [digitRun?_eq_some_iff, hvalue, Option.ite_none_right_eq_some, Option.some.injEq]

theorem Numeral.ne_nil {n : Int} (h : Numeral cs n) : cs ≠ [] := by
  cases h with
  | unsigned h => exact h.ne_nil
  | plus => exact List.cons_ne_nil _ _
  | minus => exact List.cons_ne_nil _ _

theorem Numeral.isPadding_of_mem {n : Int} (h : Numeral cs n) :
    ∀ c ∈ cs, isPadding c = false := by
  cases h with
  | unsigned h => exact fun c hc => h.isPadding_of_mem hc
  | plus h => exact List.forall_mem_cons.mpr ⟨by decide, fun c hc => h.isPadding_of_mem hc⟩
  | minus h => exact List.forall_mem_cons.mpr ⟨by decide, fun c hc => h.isPadding_of_mem hc⟩

/-- What is left of a text without its padding is read as the number that it is a numeral for. -/
theorem integer?_eq_some_iff_numeral {s : String} {n : Int} :
    integer? s = some n ↔ Numeral (trimBy isPadding s.toList) n := by
  rw [integer?]
  generalize trimBy isPadding s.toList = cs
  constructor
  · intro h
    split at h
    · obtain ⟨_, hlifted, rfl⟩ := Option.map_eq_some_iff.mp h
      obtain ⟨_, hvalue, ⟨⟩⟩ := Option.bind_eq_some_iff.mp hlifted
      obtain ⟨ds, hds, hlen, rfl⟩ := natural?_eq_some_iff.mp hvalue
      exact .minus hds hlen
    · obtain ⟨_, hvalue, rfl⟩ := Option.map_eq_some_iff.mp h
      obtain ⟨ds, hds, hlen, rfl⟩ := natural?_eq_some_iff.mp hvalue
      exact .plus hds hlen
    · obtain ⟨_, hvalue, rfl⟩ := Option.map_eq_some_iff.mp h
      obtain ⟨ds, hds, hlen, rfl⟩ := natural?_eq_some_iff.mp hvalue
      exact .unsigned hds hlen
  · intro h
    cases h with
    | unsigned hds hlen =>
      have hvalue := natural?_eq_some_iff.mpr ⟨_, hds, hlen, rfl⟩
      obtain ⟨c, d, rest, rfl, hc⟩ := hds.exists_head
      -- A run that begins with a digit begins with no sign.
      split
      · next heq =>
        cases heq
        rw [digit?_minus] at hc
        cases hc
      · next heq =>
        cases heq
        rw [digit?_plus] at hc
        cases hc
      · exact Option.map_eq_some_iff.mpr ⟨_, hvalue, rfl⟩
    | plus hds hlen =>
      have hvalue := natural?_eq_some_iff.mpr ⟨_, hds, hlen, rfl⟩
      exact Option.map_eq_some_iff.mpr ⟨_, hvalue, rfl⟩
    | minus hds hlen =>
      have hvalue := natural?_eq_some_iff.mpr ⟨_, hds, hlen, rfl⟩
      exact Option.map_eq_some_iff.mpr ⟨_, Option.bind_eq_some_iff.mpr ⟨_, hvalue, rfl⟩, rfl⟩

/-- A text is read as an integer exactly if it denotes one, and then as this. -/
theorem integer?_eq_some_iff {s : String} {n : Int} : integer? s = some n ↔ Denotes s n := by
  rw [integer?_eq_some_iff_numeral]
  constructor
  · intro h
    obtain ⟨l, r, hl, hr, hs⟩ := exists_eq_trimBy isPadding s.toList
    exact ⟨l, _, r, hs, hl, hr, h⟩
  · rintro ⟨l, cs, r, hs, hl, hr, h⟩
    rw [hs, trimBy_between hl hr h.ne_nil h.isPadding_of_mem]
    exact h

end LineShell.Text
