/-
  LineShell.CommandLine.Page

  The usage lines and help pages of the program and of its two subcommands.
-/

namespace LineShell.CommandLine

/-- What a page is about: the program as a whole, or one of its subcommands. -/
inductive Page
  | main
  | exec
  | shell
  deriving DecidableEq

namespace Page

/-- The name that messages are signed with. -/
def program : Page → String
  | main => "minish"
  | exec => "minish exec"
  | shell => "minish shell"

/-- What may follow the name on a command line. -/
def synopsis : Page → String
  | main => "[-h] [--log-level \x7bDEBUG,INFO,WARNING,ERROR\x7d] \x7bexec,shell\x7d ..."
  | exec => "[-h] line"
  | shell => "[-h]"

/-- The usage line. -/
def usage (page : Page) : String :=
  "usage: " ++ page.program ++ " " ++ page.synopsis ++ "\n"

/-- The part of a help page that follows the usage line. -/
def details : Page → String
  | main =>
    "\npositional arguments:\n" ++
    "  \x7bexec,shell\x7d\n" ++
    "    exec                Run a single command line\n" ++
    "    shell               Start the read loop (default)\n" ++
    "\noptions:\n" ++
    "  -h, --help            show this help message and exit\n" ++
    "  --log-level \x7bDEBUG,INFO,WARNING,ERROR\x7d\n" ++
    "                        Diagnostics written to stderr (default: WARNING).\n"
  | exec =>
    "\npositional arguments:\n" ++
    "  line        Already-expanded command line to execute\n" ++
    "\noptions:\n" ++
    "  -h, --help  show this help message and exit\n"
  | shell =>
    "\noptions:\n" ++
    "  -h, --help  show this help message and exit\n"

/-- The help page. -/
def help (page : Page) : String := page.usage ++ page.details

/-- What is written when arguments are refused. -/
def refusal (page : Page) (message : String) : String :=
  page.usage ++ page.program ++ ": error: " ++ message ++ "\n"

end Page

end LineShell.CommandLine
