/-
  LineShell.Command.Table

  Tables of named entries in the order in which the names were first claimed.

  A name belongs to its first claimant.  A table of definitions refuses any
  later claim; a table of registrations accepts one that says it replaces the
  entry, which then keeps its place.
-/

import LineShell.Failure
import LineShell.Text.Quoted

namespace LineShell

/-- Named entries in order. -/
structure Table (α : Type) where
  entries : List (String × α) := []

namespace Table

variable {α : Type}

/-- The names in order. -/
def names (t : Table α) : List String := t.entries.map Prod.fst

/-- The entry of a name. -/
def find? (t : Table α) (name : String) : Option α := t.entries.lookup name

/-- The table with an entry under a name: in the place of the entry that the name
    has, or at the end. -/
def insert (t : Table α) (name : String) (a : α) : Table α :=
  if name ∈ t.names then
    { entries := t.entries.map fun (other, b) => (other, if other = name then a else b) }
  else { entries := t.entries ++ [(name, a)] }

/-- The failure of a second definition. -/
def alreadyDefined (name : String) : Failure :=
  .fault .value s!"built-in {Text.quoted name} is already defined"

/-- The failure of a second registration that does not replace the first. -/
def alreadyRegistered (name : String) : Failure :=
  .fault .value s!"built-in {Text.quoted name} is already registered"

/-- Defines an entry; a name is defined once. -/
def define (t : Table α) (name : String) (a : α) : Except Failure (Table α) :=
  if name ∈ t.names then .error (alreadyDefined name) else .ok (t.insert name a)

/-- Registers an entry; a name that has one is registered again only where the
    registration replaces it. -/
def register (t : Table α) (name : String) (a : α) (replace : Bool) : Except Failure (Table α) :=
  if name ∈ t.names ∧ !replace then .error (alreadyRegistered name) else .ok (t.insert name a)

/-- Defines names one after another on a table; gives the names in the table after
    each definition, or why it was refused.  A refusal changes nothing. -/
def defineAll (t : Table Unit) : List String → List (Except Failure (List String))
  | [] => []
  | name :: rest =>
    match t.define name () with
    | .error f => .error f :: defineAll t rest
    | .ok t' => .ok t'.names :: defineAll t' rest

end Table

end LineShell
