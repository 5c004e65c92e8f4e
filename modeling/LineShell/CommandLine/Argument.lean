/-
  LineShell.CommandLine.Argument

  Telling options from other arguments.

  Up to the first double dash an argument that begins with a dash is an option,
  unless it is a negative number or holds a space and spells no known option.
  A known option may carry a value after an equals sign; a long one may be
  shortened as long as it stays the beginning of one option only.
-/

import LineShell.Text.Digit

namespace LineShell.CommandLine

/-- The options of the program. -/
inductive Flag
  | shortHelp
  | longHelp
  | logLevel
  deriving DecidableEq

/-- How an option is spelt. -/
def Flag.spelling : Flag → String
  | shortHelp => "-h"
  | longHelp => "--help"
  | logLevel => "--log-level"

/-- What an argument is read as. -/
inductive Reading
  /-- An argument that is no option. -/
  | plain
  /-- The double dash that ends the options. -/
  | dashes
  /-- An option, with the value that is part of the argument, if there is one: behind
      an equals sign, or directly behind the letter of the option. -/
  | known (flag : Flag) (attached : Option (List Char))
  | unknown
  /-- The beginning of several options. -/
  | ambiguous (candidates : List Flag)
  deriving DecidableEq

/-- Whether the characters are a digit or more, of any script. -/
def isDigits (cs : List Char) : Bool :=
  !cs.isEmpty && cs.all fun c => (Text.digit? c).isSome

/-- Whether an argument without its dash is a number: digits, or a point with
    digits behind it and possibly before it.  A line feed may end it. -/
def isNumber (cs : List Char) : Bool :=
  let body := if cs.getLast? = some '\n' then cs.dropLast else cs
  isDigits body ||
    match body.dropWhile (· != '.') with
    | [] => false
    | _ :: fraction =>
      isDigits fraction && (body.takeWhile (· != '.')).all fun c => (Text.digit? c).isSome

/-- The value behind the first equals sign, if there is one. -/
def behindSign? (cs : List Char) : Option (List Char) :=
  (cs.dropWhile (· != '=')).tail?

/-- The options that an argument which spells none of them in full may stand for. -/
def candidates (flags : List Flag) (cs : List Char) : List (Flag × Option (List Char)) :=
  match cs with
  | '-' :: '-' :: _ =>
    let name := cs.takeWhile (· != '=')
    (flags.filter fun flag => name.isPrefixOf flag.spelling.toList).map (·, behindSign? cs)
  | _ =>
    flags.filterMap fun flag =>
      if flag.spelling.toList = cs.take 2 then some (flag, some (cs.drop 2))
      else if cs.isPrefixOf flag.spelling.toList then some (flag, .none)
      else none

/-- Reads one argument, given the options that may occur. -/
def readArgument (flags : List Flag) (arg : String) : Reading :=
  match arg.toList with
  | '-' :: c :: cs =>
    let all := '-' :: c :: cs
    let name := all.takeWhile (· != '=')
    -- A full spelling, also one with a value behind the sign, wins over a shortened one.
    match flags.find? fun flag => flag.spelling.toList = all with
    | some flag => .known flag .none
    | none =>
      match flags.find? fun flag => flag.spelling.toList = name with
      | some flag => .known flag (behindSign? all)
      | none =>
        match candidates flags all with
        | [(flag, attached)] => .known flag attached
        | [] => if isNumber (c :: cs) || all.contains ' ' then .plain else .unknown
        | several => .ambiguous (several.map Prod.fst)
  | _ => .plain

/-- Reads arguments; those behind the first double dash are no options. -/
def readArguments (flags : List Flag) : List String → List (String × Reading)
  | [] => []
  | arg :: rest =>
    if arg = "--" then (arg, .dashes) :: rest.map (·, .plain)
    else (arg, readArgument flags arg) :: readArguments flags rest

end LineShell.CommandLine
