/-
  LineShell.Text.Blank

  Blank characters, trimming, and the words of a text.

  A word is a longest run of characters none of which is blank.  Trimming and
  cutting into words use the same set of blanks, so a trimmed text begins and
  ends inside a word, and an empty one has no words.
-/

namespace LineShell.Text

/-- The characters that separate words: the ASCII controls from tab to carriage
    return and from file separator to unit separator, the space, and the
    Unicode spaces and line separators. -/
def isBlank (c : Char) : Bool :=
  let n := c.toNat
  (0x09 ≤ n && n ≤ 0x0D) || (0x1C ≤ n && n ≤ 0x20) || n == 0x85 || n == 0xA0 ||
    n == 0x1680 || (0x2000 ≤ n && n ≤ 0x200A) || n == 0x2028 || n == 0x2029 ||
    n == 0x202F || n == 0x205F || n == 0x3000

/-! ## Trimming -/

/-- The characters from the first that `p` refuses to the last that it refuses. -/
def trimBy (p : Char → Bool) (cs : List Char) : List Char :=
  ((cs.dropWhile p).reverse.dropWhile p).reverse

/-- The text without the blanks before its first and after its last word. -/
def trim (s : String) : String :=
  String.ofList (trimBy isBlank s.toList)

/-- The text without the blanks before its first word. -/
def trimStart (s : String) : String :=
  String.ofList (s.toList.dropWhile isBlank)

/-! ## Words -/

/-- The words among the characters: cut at every blank, empty pieces left out. -/
def wordsOf (cs : List Char) : List (List Char) :=
  (cs.splitOnP isBlank).filter fun piece => !piece.isEmpty

/-- The words of a text, in order. -/
def words (s : String) : List String :=
  (wordsOf s.toList).map String.ofList

end LineShell.Text
