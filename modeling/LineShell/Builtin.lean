/-
  LineShell.Builtin

  The commands that the shell carries out itself.
-/

import LineShell.Group.Basic
import LineShell.Text.Blank
import LineShell.Text.Numeral

namespace LineShell

/-- A built-in command. -/
inductive Builtin
  | pwd
  | cd
  | kill
  | ps
  | echo
  deriving DecidableEq

namespace Builtin

/-- The built-in commands in the order of their definition. -/
def all : List Builtin := [pwd, cd, kill, ps, echo]

/-- The name that a built-in command is called by. -/
def name : Builtin → String
  | pwd => "pwd"
  | cd => "cd"
  | kill => "kill"
  | ps => "ps"
  | echo => "echo"

/-! ## Directories -/

/-- Writes the working directory. -/
def runPwd (setting : Setting) : Action Machine Unit := do
  setting.writeLine (← Machine.workingDirectory)

/-- The failure of a change to the home directory where there is none. -/
def noHome : Failure := .shell .directory "cd: HOME not set"

/-- The directory to change to: the first argument, or the home directory. -/
def cdTarget (env : Environment) : List String → Except Failure String
  | target :: _ => .ok target
  | [] =>
    match env.lookup "HOME" with
    | none | some "" => .error noHome
    | some home => .ok home

/-- Changes the working directory. -/
def runCd (setting : Setting) (args : List String) : Action Machine Unit := do
  let target ← .ofExcept (cdTarget (setting.visible (← .host)) args)
  (Machine.changeDirectory target).mapFailure (.claimedFor .directory s!"cd: {target}")

/-! ## Processes -/

/-- The failure of a signal without a process to send it to. -/
def noPid : Failure := .shell .argument "kill: no pid"

/-- The failure of a signal to what is no process number; zero and negative
    numbers stand for groups of processes and are none. -/
def invalidPid (text : String) : Failure :=
  .shell .argument s!"kill: invalid pid {Text.quoted text}"

/-- The process to send a signal to. -/
def killTarget : List String → Except Failure Int
  | [] => .error noPid
  | text :: _ =>
    match Text.integer? text with
    | none => .error (invalidPid text)
    | some pid => if pid ≤ 0 then .error (invalidPid text) else .ok pid

/-- A failed signal as it is reported. -/
def killFailure (pid : Int) (f : Failure) : Failure :=
  match f with
  | .system errno _ =>
    if errno = Failure.noSuchProcessErrno then .shell .process s!"kill: ({pid}) no such process"
    else .shell .process s!"kill: ({pid}) {f.systemReason?.getD f.message}"
  | .systemText message => .shell .process s!"kill: ({pid}) {message}"
  | _ => f

/-- Asks a process to end. -/
def runKill (args : List String) : Action Machine Unit := do
  let pid ← .ofExcept (killTarget args)
  (Machine.kill pid Signal.terminate).mapFailure (killFailure pid)
  .log .kill s!"sent SIGTERM to {pid}"

/-- Lists processes, by the program of that name. -/
def runPs (setting : Setting) (args : List String) : Action Machine Unit :=
  Group.foreground setting { program := "ps", args := if args.isEmpty then ["aux"] else args }

/-! ## Text -/

/-- What is written for a command text: all that follows the name and one space,
    or, where no space follows the name, the rest without leading blanks. -/
def echoMessage (text : String) : String :=
  if "echo ".toList.isPrefixOf text.toList then String.ofList (text.toList.drop 5)
  else Text.trimStart (String.ofList (text.toList.drop 4))

/-! ## All of them -/

/-- Carries out a built-in command, given its arguments and the text of the whole
    command. -/
def run (setting : Setting) (args : List String) (text : String) : Builtin → Action Machine Unit
  | pwd => runPwd setting
  | cd => runCd setting args
  | kill => runKill args
  | ps => runPs setting args
  | echo => setting.writeLine (echoMessage text)

end Builtin

end LineShell
