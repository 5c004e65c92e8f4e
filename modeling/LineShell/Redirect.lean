/-
  LineShell.Redirect

  Commands with one stream redirected to a file.

  The file is open for as long as the command runs and is closed in every case.
  A redirected command is always a program, never a built-in.
-/

import LineShell.Group.Basic
import LineShell.Text.Blank
import LineShell.Tree.Basic

namespace LineShell.Redirect

/-- The failure of a redirect that names no file. -/
def missingFile (mode : OpenMode) : Failure :=
  .shell .file s!"missing file name after {mode.operator}"

/-- Runs an action while a file is open. -/
def withFile {α : Type} (path : String) (mode : OpenMode) (body : Action Machine α) :
    Action Machine α := do
  if path.isEmpty then .fail (missingFile mode)
  (Machine.openFile path mode).mapFailure (.claimedFor .file path)
  body.ensuring (Machine.closeFile path)

/-- The invocation with the stream that a redirect of the given kind replaces. -/
def attach (mode : OpenMode) (path : String) (invocation : Invocation) : Invocation :=
  match mode with
  | .read => { invocation with stdin := .file path }
  | .append | .truncate => { invocation with stdout := .file path }

/-- Runs a command with a stream redirected; a blank command only opens the file. -/
def run (setting : Setting) (command : String) (mode : OpenMode) (target : String) :
    Action Machine Unit :=
  withFile target mode do
    match Text.words command with
    | [] => pure ()
    | words =>
      let invocation ← .ofExcept (Invocation.ofWords words)
      .log .redirect s!"redirect {Text.quotedList invocation.argv} {mode.operator} {target}"
      Group.foreground setting (attach mode target invocation)

end LineShell.Redirect
