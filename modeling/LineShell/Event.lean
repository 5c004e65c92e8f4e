/-
  LineShell.Event

  What can be observed while an action runs, one event per call on the system,
  the process observer, the output and the diagnostics.
-/

namespace LineShell

/-- Variables with their values. -/
abbrev Environment := List (String × String)

/-- The number of one end of a pipe. -/
abbrev Descriptor := Int

/-- What a process has in the place of one of its three streams. -/
inductive Stream
  | inherited
  | descriptor (fd : Descriptor)
  | file (path : String)
  deriving DecidableEq

/-- How a file is opened. -/
inductive OpenMode
  | append
  | truncate
  | read
  deriving DecidableEq

/-- What a process observer is told: a start, or an end with its status. -/
inductive ProcessEvent
  | spawned (pid : Int) (argv : List String)
  | reaped (pid : Int) (argv : List String) (status : Int)
  deriving DecidableEq

/-- The part of the shell that a line of diagnostics comes from. -/
inductive LogSource
  | dispatch
  | signals
  | process
  | pipeline
  | conditional
  | redirect
  | kill
  deriving DecidableEq

/-- The name that diagnostics carry. -/
def LogSource.name : LogSource → String
  | .dispatch => "minish.shell.core"
  | .signals => "minish.signals"
  | .process => "minish.shell.process"
  | .pipeline => "minish.shell.pipeline"
  | .conditional => "minish.shell.conditional"
  | .redirect => "minish.shell.redirect"
  | .kill => "minish.shell.commands.processes"

/-- Where the shell writes: the standard output of the program, or an output of
    the shell's own. -/
inductive OutputStream
  | standard
  | custom
  deriving DecidableEq

/-- One observation. -/
inductive Event
  /-- A process was started. -/
  | spawn (pid : Int) (argv : List String) (stdin stdout stderr : Stream)
      (env : Option Environment)
  /-- The system refused to start a program. -/
  | spawnFailed (argv : List String) (stdin stdout : Stream)
  /-- A wait ended with the status of the process, or was interrupted. -/
  | wait (pid : Int) (status : Option Int)
  | terminate (pid : Int)
  | hook (event : ProcessEvent)
  | pipe (readEnd writeEnd : Descriptor)
  | pipeFailed
  | close (fd : Descriptor)
  | openFile (path : String) (mode : OpenMode) (ok : Bool)
  | closeFile (path : String)
  | chdir (path : String) (ok : Bool)
  | kill (pid : Int) (signum : Int) (ok : Bool)
  /-- A handler was put in place for a signal, or the system refused it. -/
  | signal (signum : Int) (handler : String) (ok : Bool)
  /-- Text was put into the buffer of an output. -/
  | write (stream : OutputStream) (text : String)
  /-- Buffered text reached an output. -/
  | out (stream : OutputStream) (text : String)
  /-- Text reached the standard error output. -/
  | err (text : String)
  | log (source : LogSource) (message : String)
  /-- A registered command was called. -/
  | call (name : String) (args : List String) (text : String)
  /-- A file was handed to those who asked for it. -/
  | body (path : String)
  /-- A line of input was asked for. -/
  | input (prompt : String)
  deriving DecidableEq

/-- Whether the event is a line of diagnostics. -/
def Event.isLog : Event → Bool
  | .log .. => true
  | _ => false

end LineShell
