/-
  LineShell.Signal

  Signals by number and by name, and the handlers that answer them.
-/

namespace LineShell.Signal

/-- The number of the signal that the interrupt key sends. -/
def interrupt : Int := 2

/-- The number of the signal that asks a process to end. -/
def terminate : Int := 15

/-- The signals that have a name, by number. -/
def names : List (Int × String) :=
  [(1, "SIGHUP"), (2, "SIGINT"), (3, "SIGQUIT"), (4, "SIGILL"), (5, "SIGTRAP"),
   (6, "SIGABRT"), (7, "SIGBUS"), (8, "SIGFPE"), (9, "SIGKILL"), (10, "SIGUSR1"),
   (11, "SIGSEGV"), (12, "SIGUSR2"), (13, "SIGPIPE"), (14, "SIGALRM"), (15, "SIGTERM"),
   (16, "SIGSTKFLT"), (17, "SIGCHLD"), (18, "SIGCONT"), (19, "SIGSTOP"), (20, "SIGTSTP"),
   (21, "SIGTTIN"), (22, "SIGTTOU"), (23, "SIGURG"), (24, "SIGXCPU"), (25, "SIGXFSZ"),
   (26, "SIGVTALRM"), (27, "SIGPROF"), (28, "SIGWINCH"), (29, "SIGIO"), (30, "SIGPWR"),
   (31, "SIGSYS"), (34, "SIGRTMIN"), (64, "SIGRTMAX")]

/-- How a message speaks of a signal: by its name, or by its number where it has none. -/
def describe (signum : Int) : String :=
  (names.lookup signum).getD s!"signal {signum}"

/-- A handler, by its name. -/
abbrev Handler := String

/-- The handler that ignores a signal. -/
def Handler.ignore : Handler := "SIG_IGN"

/-- The handler that turns the interrupt key into an interrupt of the shell. -/
def Handler.raiseInterrupt : Handler := "default_int_handler"

end LineShell.Signal
