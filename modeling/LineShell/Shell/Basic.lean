/-
  LineShell.Shell.Basic

  Running trees and dispatching lines.

  A plain command is looked up in the table of the shell first and is a program
  otherwise.  Redirects and pipelines never look at the table.  A conditional
  goes through its groups; a group passes with the first alternative that does,
  and one that fails ends the conditional: with its failure if it is the last,
  and silently if it is not.

  Dispatching a line runs its tree with the interrupt key exposed.  Scripts may
  dispatch further lines.  The number of scripts that may be under way at once
  is bounded, so a script that calls itself comes to an end.
-/

import LineShell.Command.Handler
import LineShell.Governor.Switch
import LineShell.Pipeline
import LineShell.Redirect
import LineShell.Tree.Parse

namespace LineShell

/-- A shell: what holds for all it runs, and what command names stand for. -/
structure Shell where
  setting : Setting := {}
  policy : Governor.Policy := {}
  commands : Table Handler := builtinCommands

namespace Shell

/-- How a handler is carried out, given the name it was called by, the arguments
    and the text of the whole command. -/
abbrev Interpreter :=
  Handler → (name : String) → (args : List String) → (text : String) → Action Session Unit

/-! ## Trees -/

/-- Runs a plain command. -/
def runCommand (shell : Shell) (interpret : Interpreter) (text : String) :
    List String → Action Session Unit
  | [] => pure ()
  | name :: args =>
    match shell.commands.find? name with
    | some handler => interpret handler name args text
    | none => (Group.foreground shell.setting { program := name, args }).inSession

/-- Runs an action and catches a failure of the shell; other failures go on. -/
def attemptShell (x : Action Session Unit) : Action Session (Option Failure) := do
  match ← x.attempt with
  | .ok () => pure none
  | .error f => if f.isShell then pure (some f) else .fail f

mutual

/-- Runs a tree. -/
def runTree (shell : Shell) (interpret : Interpreter) : Tree → Action Session Unit
  | .command text words => runCommand shell interpret text words
  | .redirect command mode target =>
    (Redirect.run shell.setting command mode target).inSession
  | .pipeline stages => (Pipeline.run shell.setting stages).inSession
  | .conditional groups => runGroups shell interpret 0 groups

/-- Runs the groups of a conditional from the one at a position on. -/
def runGroups (shell : Shell) (interpret : Interpreter) :
    (index : Nat) → List (List Tree) → Action Session Unit
  | _, [] => pure ()
  | index, group :: rest => do
    match ← runAlternatives shell interpret none group with
    | none => runGroups shell interpret (index + 1) rest
    | some f =>
      -- Only the last group can fail the line; an earlier one just ends it.
      if rest.isEmpty then .fail f
      else
        .log .conditional
          s!"and-group {index} failed ({f.message}); chain stops without error"

/-- Runs the alternatives of a group up to the first that passes; gives the failure
    of the last one if none does, `failure` being that of the one before. -/
def runAlternatives (shell : Shell) (interpret : Interpreter) :
    (failure : Option Failure) → List Tree → Action Session (Option Failure)
  | failure, [] => pure failure
  | _, alternative :: rest => do
    match ← attemptShell (runTree shell interpret alternative) with
    | none => pure none
    | some f => runAlternatives shell interpret (some f) rest

end

/-! ## Lines -/

/-- Dispatches a line. -/
def executeWith (shell : Shell) (interpret : Interpreter) (line : String) :
    Action Session Unit := do
  let tree := Tree.parse line
  .log .dispatch s!"dispatch {tree.kindName}: {Text.quoted line}"
  Governor.exposed shell.policy (runTree shell interpret tree)

/-- Does one action of a script. -/
def perform (shell : Shell) (interpret : Interpreter) : ScriptAction → Action Session Unit
  | .writeLine text => (shell.setting.writeLine text).inSession
  | .print text => (shell.setting.print text).inSession
  | .execute line => executeWith shell interpret line
  | .runLine line => runTree shell interpret (Tree.parse line)
  | .raise f => .fail f

/-- Does actions in order until one fails. -/
def performAll (shell : Shell) (interpret : Interpreter) :
    List ScriptAction → Action Session Unit
  | [] => pure ()
  | action :: rest => do
    perform shell interpret action
    performAll shell interpret rest

/-- The failure of a script that is called while as many as may be are under way. -/
def tooDeep : Failure := .fault .runtime "maximum recursion depth exceeded"

/-- Carries out handlers while at most `depth` more scripts may be under way. -/
def interpreter (shell : Shell) : (depth : Nat) → Interpreter
  | _, .builtin command, _, args, text => (command.run shell.setting args text).inSession
  | 0, .script _, _, _, _ => .fail tooDeep
  | depth + 1, .script actions, name, args, text => do
    .emit (.call name args text)
    performAll shell (interpreter shell depth) actions

/-- How many scripts may be under way at once. -/
def maxDepth : Nat := 1000

/-- Runs a tree. -/
def run (shell : Shell) (tree : Tree) : Action Session Unit :=
  runTree shell (interpreter shell maxDepth) tree

/-- Dispatches a line. -/
def execute (shell : Shell) (line : String) : Action Session Unit :=
  executeWith shell (interpreter shell maxDepth) line

end Shell

end LineShell
