/-
  LineShell.Tree.Parse

  Reading a command line.

  There is no quoting, and no line is refused.  The first rule that fits the
  trimmed line decides what it is: a doubled ampersand or bar makes it a
  conditional, an angle bracket a redirect, a bar a pipeline, and any other line
  is a plain command.  The parts of a conditional are read by the same rules;
  none of them holds a doubled operator, so a conditional is never nested.
-/

import LineShell.Failure
import LineShell.Text.Blank
import LineShell.Text.Cut
import LineShell.Text.Doubled
import LineShell.Text.Quoted
import LineShell.Tree.Basic

namespace LineShell.Tree

open Text

/-- The ways to redirect in the order in which their operators are looked for; the
    longer operator comes before the one that it begins with. -/
def redirectModes : List OpenMode := [.append, .truncate, .read]

/-- The redirect at the first occurrence of an operator, or `none` without one. -/
def redirectOf? (cs : List Char) : Option Tree :=
  redirectModes.findSome? fun mode =>
    (cutAt? mode.operator.toList cs).map fun (before, after) =>
      redirect (String.ofList (trimBy isBlank before)) mode (String.ofList (trimBy isBlank after))

/-- The tree of trimmed characters without a doubled operator. -/
def ofPart (cs : List Char) : Tree :=
  match redirectOf? cs with
  | some t => t
  | none =>
    -- An empty segment is kept: it is a stage that names no program.
    if '|' ∈ cs then
      pipeline ((cs.splitOn '|').map fun segment => (wordsOf segment).map String.ofList)
    else command (String.ofList cs) ((wordsOf cs).map String.ofList)

/-- The alternatives of one group; parts with nothing in them are left out. -/
def alternativesOf (cs : List Char) : List Tree :=
  (((splitDoubled '|' cs).map (trimBy isBlank)).filter fun part => !part.isEmpty).map ofPart

/-- The groups of a conditional. -/
def groupsOf (cs : List Char) : List (List Tree) :=
  (splitDoubled '&' cs).map alternativesOf

/-- The tree of a line. -/
def parse (line : String) : Tree :=
  let cs := trimBy isBlank line.toList
  if hasDoubled '&' cs ∨ hasDoubled '|' cs then conditional (groupsOf cs) else ofPart cs

/-! ## Reading a text as one particular kind of tree -/

/-- The conditional that a text spells. -/
def parseConditional (text : String) : Tree :=
  conditional (groupsOf text.toList)

/-- The redirect that a text spells. -/
def parseRedirect (text : String) : Except Failure Tree :=
  match redirectOf? text.toList with
  | some t => .ok t
  | none => .error (.fault .value s!"No redirection operator in {quoted text}")

end LineShell.Tree
