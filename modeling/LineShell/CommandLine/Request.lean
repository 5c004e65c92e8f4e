/-
  LineShell.CommandLine.Request

  What the arguments of the program ask for.

  The arguments are gone through once, from the left.  The first that is no
  option names the subcommand, and all arguments behind it belong to the
  subcommand.  Arguments that nobody takes are collected and refused at the
  end, so that another fault, or a request for help, comes first.
-/

import LineShell.CommandLine.Argument
import LineShell.CommandLine.Page
import LineShell.Text.Quoted

namespace LineShell.CommandLine

/-- From which severity on diagnostics are written. -/
inductive Level
  | debug
  | info
  | warning
  | error
  deriving DecidableEq

/-- The levels in ascending order. -/
def Level.all : List Level := [debug, info, warning, error]

/-- The name of a level. -/
def Level.name : Level → String
  | debug => "DEBUG"
  | info => "INFO"
  | warning => "WARNING"
  | error => "ERROR"

/-- What the program is to do. -/
inductive Task
  /-- Run one line. -/
  | exec (line : String)
  /-- Read lines and run them. -/
  | shell
  deriving DecidableEq

/-- What the arguments ask for. -/
inductive Request
  | help (page : Page)
  | refused (page : Page) (message : String)
  /-- Run a task.  There is no level where a double dash stood in its place. -/
  | run (level? : Option Level) (task : Task)
  deriving DecidableEq

/-! ## Messages -/

/-- The names of the subcommands. -/
def subcommands : List String := ["exec", "shell"]

/-- The message for a value that is none of those to choose from. -/
def invalidChoice (argument value : String) (choices : List String) : String :=
  s!"argument {argument}: invalid choice: {Text.quoted value} (choose from " ++
    ", ".intercalate (choices.map Text.quoted) ++ ")"

/-- The message for a value given to an option that takes none. -/
def ignoredValue (value : List Char) : String :=
  s!"argument -h/--help: ignored explicit argument {Text.quoted (String.ofList value)}"

/-- The message for an argument that may stand for several options. -/
def ambiguousOption (arg : String) (candidates : List Flag) : String :=
  s!"ambiguous option: {arg} could match " ++ ", ".intercalate (candidates.map Flag.spelling)

/-- The refusal of the first argument that may stand for several options. -/
def ambiguity? (page : Page) : List (String × Reading) → Option Request
  | [] => none
  | (arg, .ambiguous candidates) :: _ => some (.refused page (ambiguousOption arg candidates))
  | _ :: rest => ambiguity? page rest

/-! ## Options -/

/-- The part of a value that a request for help refuses.  Letters may be put together
    behind one dash, so each leading `h` of a value only repeats the short request. -/
def refusedValue? (flag : Flag) (value : List Char) : Option (List Char) :=
  if flag = .shortHelp ∧ value ≠ [] then
    match value.dropWhile (· = 'h') with
    | [] => none
    | rest => some rest
  else some value

/-- What a request for help on a page comes to. -/
def askHelp (page : Page) (flag : Flag) (attached : Option (List Char)) : Request :=
  match attached.bind (refusedValue? flag) with
  | none => .help page
  | some value => .refused page (ignoredValue value)

/-- The level that a value names.  A double dash counts as no value wherever it
    stands, so it names none. -/
def chooseLevel (value : String) : Except Request (Option Level) :=
  match Level.all.find? fun level => level.name = value with
  | some level => .ok (some level)
  | none =>
    if value = "--" then .ok none
    else .error (.refused .main (invalidChoice "--log-level" value (Level.all.map Level.name)))

/-! ## Subcommands -/

/-- What a subcommand makes of its arguments: a request that settles all, or a
    task and the arguments that are left over. -/
abbrev Assignment := Except Request (Task × List String)

/-- The arguments of the subcommand that runs a line.  The first plain argument is
    the line; a double dash directly before or behind it is passed over. -/
def readExec (line : Option String) (leftover : List String) : List (String × Reading) → Assignment
  | [] =>
    match line with
    | some line => .ok (.exec line, leftover)
    | none => .error (.refused .exec "the following arguments are required: line")
  | (arg, .plain) :: rest =>
    match line with
    | some _ => readExec line (leftover ++ [arg]) rest
    | none =>
      match rest with
      | (_, .dashes) :: rest' => readExec (some arg) leftover rest'
      | rest => readExec (some arg) leftover rest
  | (arg, .dashes) :: rest =>
    match line, rest with
    | none, (next, _) :: rest' => readExec (some next) leftover rest'
    | _, rest => readExec line (leftover ++ [arg]) rest
  | (_, .known flag attached) :: _ => .error (askHelp .exec flag attached)
  | (arg, _) :: rest => readExec line (leftover ++ [arg]) rest

/-- The arguments of the subcommand that reads lines; it takes none. -/
def readShell (leftover : List String) : List (String × Reading) → Assignment
  | [] => .ok (.shell, leftover)
  | (_, .known flag attached) :: _ => .error (askHelp .shell flag attached)
  | (arg, _) :: rest => readShell (leftover ++ [arg]) rest

/-- Reads the arguments of a subcommand, which knows no option but the request for
    help. -/
def readSubcommand (name : String) (args : List String) : Assignment :=
  let readings := readArguments [.shortHelp, .longHelp] args
  match name with
  | "exec" =>
    match ambiguity? .exec readings with
    | some request => .error request
    | none => readExec none [] readings
  | "shell" =>
    match ambiguity? .shell readings with
    | some request => .error request
    | none => readShell [] readings
  | _ => .error (.refused .main (invalidChoice "command_name" name subcommands))

/-! ## All arguments -/

/-- The request for a task, unless arguments are left over. -/
def settle (level? : Option Level) (task : Task) : (leftover : List String) → Request
  | [] => .run level? task
  | leftover =>
    .refused .main ("unrecognized arguments: " ++ " ".intercalate leftover)

/-- Goes through the arguments from the left. -/
def requestFrom (level? : Option Level) (leftover : List String) :
    List (String × Reading) → Request
  | [] => settle level? .shell leftover
  -- The arguments of the subcommand are read anew, by its own options.
  | (name, .plain) :: rest =>
    match readSubcommand name (rest.map Prod.fst) with
    | .error request => request
    | .ok (task, more) => settle level? task (leftover ++ more)
  | (arg, .dashes) :: rest =>
    match rest with
    | [] => settle level? .shell (leftover ++ [arg])
    | _ => .refused .main (invalidChoice "command_name" arg subcommands)
  | (_, .known .logLevel attached) :: rest =>
    match attached, rest with
    | some value, rest =>
      match chooseLevel (String.ofList value) with
      | .ok level? => requestFrom level? leftover rest
      | .error request => request
    | none, (value, .plain) :: rest' =>
      match chooseLevel value with
      | .ok level? => requestFrom level? leftover rest'
      | .error request => request
    | none, _ => .refused .main "argument --log-level: expected one argument"
  | (_, .known flag attached) :: _ => askHelp .main flag attached
  | (arg, _) :: rest => requestFrom level? (leftover ++ [arg]) rest

/-- What the arguments ask for. -/
def request (args : List String) : Request :=
  let readings := readArguments [.shortHelp, .longHelp, .logLevel] args
  (ambiguity? .main readings).getD (requestFrom (some .warning) [] readings)

end LineShell.CommandLine
