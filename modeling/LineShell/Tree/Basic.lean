/-
  LineShell.Tree.Basic

  Command lines as trees.

  A line is a plain command, a command with one stream redirected, a pipeline,
  or a conditional: groups of alternatives, every group of which is to pass and
  passes when one of its alternatives does.
-/

import LineShell.Event

namespace LineShell

/-- The operator that redirects a stream in the given way. -/
def OpenMode.operator : OpenMode → String
  | .append => ">>"
  | .truncate => ">"
  | .read => "<"

/-- A command line. -/
inductive Tree
  | command (text : String) (words : List String)
  | redirect (command : String) (mode : OpenMode) (target : String)
  | pipeline (stages : List (List String))
  | conditional (groups : List (List Tree))

/-- The name of a kind of tree in diagnostics. -/
def Tree.kindName : Tree → String
  | command .. => "CommandNode"
  | redirect .. => "RedirectNode"
  | pipeline _ => "PipelineNode"
  | conditional _ => "ConditionalNode"

end LineShell
