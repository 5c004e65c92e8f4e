/-
  LineShell.Text.Numeral

  Integers written in a text.

  A numeral may be padded with blanks on both sides and may carry one sign.
  Its digits may be of any script and of several scripts at once; a single
  underscore may stand between two digits.  A numeral of more than
  `maxDigits` digits is refused whatever its value, leading zeros counted.
-/

import LineShell.Text.Blank
import LineShell.Text.Digit

namespace LineShell.Text

/-- The most digits that a numeral may have. -/
def maxDigits : Nat := 4300

/-- The blanks that may surround a numeral: all but the four ASCII separators. -/
def isPadding (c : Char) : Bool :=
  isBlank c && !(0x1C ≤ c.toNat && c.toNat ≤ 0x1F)

/-- The values of a nonempty run of digits, single underscores between two of
    them left out. -/
def digitRun? : List Char → Option (List Nat)
  | [] => none
  | [c] => (digit? c).map ([·])
  | c :: c' :: cs => do
    let d ← digit? c
    let ds ← if c' = '_' then digitRun? cs else digitRun? (c' :: cs)
    some (d :: ds)

/-- The number that a run of digits denotes, or `none` where the characters are
    no such run or one of too many digits. -/
def natural? (cs : List Char) : Option Nat :=
  (digitRun? cs).bind fun ds =>
    -- The length of the run counts, not the size of the number.
    if ds.length ≤ maxDigits then some (ds.foldl (fun n d => 10 * n + d) 0) else none

/-- The integer that a text denotes. -/
def integer? (s : String) : Option Int :=
  match trimBy isPadding s.toList with
  | '-' :: cs => (natural? cs).map fun n => -(n : Int)
  | '+' :: cs => (natural? cs).map Int.ofNat
  | cs => (natural? cs).map Int.ofNat

end LineShell.Text
