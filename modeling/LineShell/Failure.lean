/-
  LineShell.Failure

  Everything that may come out of an action instead of a value.

  The failures of the shell itself are those that a read loop reports and
  survives: they have an exit status.  The others are failures of the system
  that no layer of the shell has claimed, interrupts, and faults; they end what
  is going on.
-/

import LineShell.Signal

namespace LineShell

/-- What part of a command line a failure of the shell is about. -/
inductive Category
  | general
  | argument
  | directory
  | file
  | launch
  | process
  deriving DecidableEq

/-- The status that a failure of a category gives to its command line. -/
def Category.exitStatus : Category → Int
  | .argument => 2
  | .launch => 127
  | .general | .directory | .file | .process => 1

/-- The kinds of faults: failures that are neither the shell's nor the system's. -/
inductive Fault
  | runtime
  | value
  | overflow
  /-- An operation on something of the wrong sort. -/
  | sort
  /-- A position that a list does not have. -/
  | position
  deriving DecidableEq

/-- Why an action came to no value. -/
inductive Failure
  /-- The shell refuses a command line or a part of it. -/
  | shell (category : Category) (message : String)
  /-- A program ended with a status other than zero; a negative status is the
      number of the signal that ended it. -/
  | exitStatus (program : String) (status : Int)
  /-- The stage at a position of a pipeline failed. -/
  | stage (index : Int) (cause : Failure)
  /-- A call on the system failed with an error number. -/
  | system (errno : Int) (reason : String)
  /-- A call on the system failed with a text alone. -/
  | systemText (message : String)
  /-- The interrupt key was pressed. -/
  | interrupt (message : String)
  | fault (kind : Fault) (message : String)
  deriving DecidableEq

namespace Failure

/-- The text that a failure is reported with. -/
def message : Failure → String
  | shell _ message => message
  | exitStatus program status =>
    if status < 0 then s!"{program}: terminated by {Signal.describe (-status)}"
    else s!"{program}: exit status {status}"
  | stage index cause => s!"pipeline stage {index}: " ++ cause.message
  | system errno reason => s!"[Errno {errno}] {reason}"
  | systemText message => message
  | interrupt message => message
  | fault _ message => message

/-- The status of a command line that ends with the failure, or `none` where the
    failure is not the shell's own.  A process ended by a signal counts from 128
    up; a failure of a stage counts as its cause does. -/
def exitStatus? : Failure → Option Int
  | shell category _ => some category.exitStatus
  | exitStatus _ status => some (if status < 0 then 128 - status else status)
  | stage _ cause => some (cause.exitStatus?.getD 1)
  | system .. | systemText _ | interrupt _ | fault .. => none

/-- Whether the failure is one of the shell itself. -/
def isShell (f : Failure) : Bool := f.exitStatus?.isSome

/-- What the system gave as the reason of a failed call, or `none` where the
    failure is not the system's.  An error number without a reason is named in
    the place of one. -/
def systemReason? : Failure → Option String
  | system errno reason =>
    some (if reason.isEmpty then (system errno reason).message else reason)
  | systemText message => some message
  | _ => none

/-- The failure as a part of the shell reports it that made the call for a
    subject: a failure of the system is claimed under the subject, any other
    stays. -/
def claimedFor (category : Category) (subject : String) (f : Failure) : Failure :=
  match f.systemReason? with
  | some reason => shell category s!"{subject}: {reason}"
  | none => f

/-! ## Failures of the system with a fixed reason -/

def noSuchFile : Failure := .system 2 "No such file or directory"

/-- The error number for a process that does not exist. -/
def noSuchProcessErrno : Int := 3

def noSuchProcess : Failure := .system noSuchProcessErrno "No such process"

/-- A path or an argument with a null character is refused before any call. -/
def embeddedNull : Failure := .fault .value "embedded null byte"

end Failure

end LineShell
