/-
  LineShell.Proofs.Command.Table

  What becomes of a table that entries are put into one after another.

  Putting an entry under a name keeps the place of the name, if it has one, and gives it
  the new entry (`names_insert`, `find?_insert`).  So after any number of entries the names
  stand in the order in which they came, each once, and every name has the last entry that
  came with it (`names_insertAll`, `find?_insertAll`).  Of a sequence of definitions the
  first one of each name is kept instead, since a later one is refused and has no effect
  (`names_defineEach`, `find?_defineEach`).
-/

import LineShell.Command.Table
import Mathlib.Data.List.Basic

namespace LineShell

namespace Table

variable {α : Type} {t : Table α} {name other : String} {a : α}

/-! ## One entry -/

theorem find?_eq_none_iff : t.find? name = none ↔ name ∉ t.names := by
  rw [find?, List.lookup_eq_none_iff, names, List.mem_map]
  constructor
  · rintro h ⟨entry, hentry, rfl⟩
    simpa using h entry hentry
  · intro h entry hentry
    have hne : name ≠ entry.1 := fun heq => h ⟨entry, hentry, heq.symm⟩
    simpa using hne

theorem exists_find?_of_mem (h : name ∈ t.names) : ∃ a, t.find? name = some a :=
  Option.ne_none_iff_exists'.mp (mt find?_eq_none_iff.mp (not_not.mpr h))

/-- Looking up a name where each entry has been changed in view of its name. -/
theorem lookup_map_entry (change : String → α → α) (l : List (String × α)) :
    (l.map fun (other, b) => (other, change other b)).lookup name
      = (l.lookup name).map (change name) := by
  induction l with
  | nil => rfl
  | cons entry rest ih =>
    obtain ⟨other, b⟩ := entry
    simp only [List.map_cons, List.lookup_cons]
    by_cases h : name = other
    · simp [h]
    · have hne : (name == other) = false := by simpa using h
      simp [hne, ih]

theorem names_insert (t : Table α) (name : String) (a : α) :
    (t.insert name a).names = if name ∈ t.names then t.names else t.names ++ [name] := by
  rw [insert]
  split
  · simp [names, Function.comp_def]
  · simp [names]

theorem find?_insert (t : Table α) (name : String) (a : α) (other : String) :
    (t.insert name a).find? other = if other = name then some a else t.find? other := by
  rw [insert]
  split
  · next hmem =>
    rw [find?, lookup_map_entry fun other b => if other = name then a else b, ← find?]
    split
    · next h =>
      subst h
      obtain ⟨b, hb⟩ := exists_find?_of_mem hmem
      rw [hb]
      simp
    · next h => cases t.find? other <;> rfl
  · next hmem =>
    rw [find?, List.lookup_append, ← find?]
    split
    · next h =>
      subst h
      rw [find?_eq_none_iff.mpr hmem]
      simp
    · next h =>
      have hne : (other == name) = false := by simpa using h
      simp [List.lookup_cons, hne]

theorem nodup_names_insert (h : t.names.Nodup) (name : String) (a : α) :
    (t.insert name a).names.Nodup := by
  rw [names_insert]
  split
  · exact h
  · next hmem =>
    rw [List.nodup_append]
    refine ⟨h, by simp, fun other hother last hlast heq => ?_⟩
    exact hmem (List.mem_singleton.mp hlast ▸ heq ▸ hother)

/-! ## Entries in sequence -/

/-- The table with entries put into it one after another. -/
def insertAll (t : Table α) (entries : List (String × α)) : Table α :=
  entries.foldl (fun t (name, a) => t.insert name a) t

/-- The names that are known and then those that come, each where it stands first, do not depend
    on whether the next name is looked at before the others. -/
theorem append_eraseDups_cons (known : List String) (name : String) (rest : List String) :
    let known' := if name ∈ known then known else known ++ [name]
    known' ++ (rest.filter (· ∉ known')).eraseDups
      = known ++ ((name :: rest).filter (· ∉ known)).eraseDups := by
  intro known'
  by_cases h : name ∈ known
  · have hsame : known' = known := if_pos h
    rw [hsame, List.filter_cons_of_neg (by simpa using h)]
  · have hmore : known' = known ++ [name] := if_neg h
    have hrest : rest.filter (· ∉ known')
        = (rest.filter (· ∉ known)).filter fun other => !(other == name) := by
      rw [hmore, List.filter_filter]
      refine List.filter_congr fun other _ => ?_
      by_cases hother : other = name <;> simp [hother]
    rw [hrest, hmore, List.filter_cons_of_pos (by simpa using h), List.eraseDups_cons,
      List.append_assoc]
    rfl

theorem names_insertAll (t : Table α) (entries : List (String × α)) :
    (t.insertAll entries).names
      = t.names ++ ((entries.map Prod.fst).filter (· ∉ t.names)).eraseDups := by
  induction entries generalizing t with
  | nil => simp [insertAll]
  | cons entry rest ih =>
    obtain ⟨name, a⟩ := entry
    have hstep : t.insertAll ((name, a) :: rest) = (t.insert name a).insertAll rest := rfl
    rw [hstep, ih, names_insert, List.map_cons]
    exact append_eraseDups_cons t.names name (rest.map Prod.fst)

theorem nodup_names_insertAll (h : t.names.Nodup) (entries : List (String × α)) :
    (t.insertAll entries).names.Nodup := by
  induction entries generalizing t with
  | nil => exact h
  | cons entry rest ih => exact ih (nodup_names_insert h entry.1 entry.2)

/-- The last entry of a name counts. -/
theorem find?_insertAll (t : Table α) (entries : List (String × α)) (name : String) :
    (t.insertAll entries).find? name = (entries.reverse.lookup name).or (t.find? name) := by
  induction entries generalizing t with
  | nil => rfl
  | cons entry rest ih =>
    obtain ⟨other, a⟩ := entry
    have hstep : t.insertAll ((other, a) :: rest) = (t.insert other a).insertAll rest := rfl
    rw [hstep, ih, find?_insert, List.reverse_cons, List.lookup_append, Option.or_assoc]
    by_cases h : name = other
    · simp [h]
    · have hne : (name == other) = false := by simpa using h
      simp [h, hne, List.lookup_cons]

/-! ## Definitions in sequence -/

/-- A definition is refused where the name is in the table, and only there. -/
theorem define_eq_error_iff {f : Failure} :
    t.define name a = .error f ↔ name ∈ t.names ∧ f = alreadyDefined name := by
  rw [define]
  split
  · next h => simp [h, eq_comm]
  · next h => simp [h]

/-- The table after definitions one after another; a refused one has no effect. -/
def defineEach (t : Table α) (definitions : List (String × α)) : Table α :=
  definitions.foldl
    (fun t (name, a) =>
      match t.define name a with
      | .ok t' => t'
      | .error _ => t) t

theorem defineEach_cons (t : Table α) (name : String) (a : α) (rest : List (String × α)) :
    t.defineEach ((name, a) :: rest)
      = (if name ∈ t.names then t else t.insert name a).defineEach rest := by
  rw [defineEach, List.foldl_cons, ← defineEach]
  by_cases h : name ∈ t.names <;> simp [define, h]

theorem names_defineEach (t : Table α) (definitions : List (String × α)) :
    (t.defineEach definitions).names
      = t.names ++ ((definitions.map Prod.fst).filter (· ∉ t.names)).eraseDups := by
  induction definitions generalizing t with
  | nil => simp [defineEach]
  | cons definition rest ih =>
    obtain ⟨name, a⟩ := definition
    have hnames : (if name ∈ t.names then t else t.insert name a).names
        = if name ∈ t.names then t.names else t.names ++ [name] := by
      by_cases h : name ∈ t.names <;> simp [h, names_insert]
    rw [defineEach_cons, ih, hnames, List.map_cons]
    exact append_eraseDups_cons t.names name (rest.map Prod.fst)

theorem nodup_names_defineEach (h : t.names.Nodup) (definitions : List (String × α)) :
    (t.defineEach definitions).names.Nodup := by
  induction definitions generalizing t with
  | nil => exact h
  | cons definition rest ih =>
    rw [defineEach_cons]
    split
    · exact ih h
    · exact ih (nodup_names_insert h _ _)

/-- The first definition of a name counts. -/
theorem find?_defineEach (t : Table α) (definitions : List (String × α)) (name : String) :
    (t.defineEach definitions).find? name = (t.find? name).or (definitions.lookup name) := by
  induction definitions generalizing t with
  | nil => simp [defineEach]
  | cons definition rest ih =>
    obtain ⟨other, a⟩ := definition
    rw [defineEach_cons, ih, List.lookup_cons]
    by_cases h : name = other
    · subst h
      by_cases hmem : name ∈ t.names
      · obtain ⟨b, hb⟩ := exists_find?_of_mem hmem
        simp [hmem, hb]
      · simp [hmem, find?_insert, find?_eq_none_iff.mpr hmem]
    · have hne : (name == other) = false := by simpa using h
      by_cases hmem : other ∈ t.names <;> simp [hmem, hne, find?_insert, h]

/-- What becomes of a table of definitions. -/
structure Defined (definitions : List (String × α)) (t : Table α) : Prop where
  refused : ∀ name a f, t.define name a = .error f ↔ name ∈ t.names ∧ f = alreadyDefined name
  unchanged : ∀ name a, name ∈ t.names → t.defineEach [(name, a)] = t
  names : t.names = (definitions.map Prod.fst).eraseDups
  nodup : t.names.Nodup
  entries : ∀ name, t.find? name = definitions.lookup name

theorem defineEach_defined (definitions : List (String × α)) :
    Defined definitions (defineEach {} definitions) where
  refused _ _ _ := define_eq_error_iff
  unchanged name a h := by
    rw [defineEach_cons, if_pos h]
    rfl
  names := by
    rw [names_defineEach]
    simp [Table.names]
  nodup := nodup_names_defineEach (by simp [Table.names]) definitions
  entries name := find?_defineEach {} definitions name

/-! ## Registrations in sequence -/

/-- A name with its entry, and whether that is to replace the one that the name has. -/
structure Registration (α : Type) where
  name : String
  entry : α
  replace : Bool := false

/-- A registration is refused where the name is in the table and the entry there is not to be
    replaced, and only there. -/
theorem register_eq_error_iff {replace : Bool} {f : Failure} :
    t.register name a replace = .error f ↔
      (name ∈ t.names ∧ replace = false) ∧ f = alreadyRegistered name := by
  rw [register]
  cases replace with
  | true => simp
  | false =>
    by_cases h : name ∈ t.names
    · simp [h, eq_comm]
    · simp [h]

theorem eq_insert_of_register {replace : Bool} {t' : Table α}
    (h : t.register name a replace = .ok t') : t' = t.insert name a := by
  rw [register] at h
  split at h
  · cases h
  · exact (Except.ok.inj h).symm

/-- The entries of the registrations that are accepted when one is made after another. -/
def accepted (t : Table α) : List (Registration α) → List (String × α)
  | [] => []
  | r :: rest =>
    match t.register r.name r.entry r.replace with
    | .ok t' => (r.name, r.entry) :: accepted t' rest
    | .error _ => accepted t rest

end Table

end LineShell
