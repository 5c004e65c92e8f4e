/-
  LineShell.Text.Doubled

  Operators written as one character twice, and the pieces between them.

  Matches are taken from the left and do not overlap: in a run of three the
  first two characters are an operator and the third belongs to the piece that
  follows.  The pieces are one more than the matches, so they are never none.
-/

namespace LineShell.Text

/-- Whether the character `d` stands twice in a row somewhere. -/
def hasDoubled (d : Char) : List Char → Bool
  | c :: c' :: cs => (c == d && c' == d) || hasDoubled d (c' :: cs)
  | _ => false

/-- The pieces between the places where `d` stands twice in a row. -/
def splitDoubled (d : Char) : List Char → List (List Char)
  | c :: c' :: cs =>
    if c = d ∧ c' = d then [] :: splitDoubled d cs
    else (splitDoubled d (c' :: cs)).modifyHead (c :: ·)
  | [c] => [[c]]
  | [] => [[]]

end LineShell.Text
