/-
  LineShell.Text.Cut

  Cutting a text in two at the first place where an operator stands.
-/

namespace LineShell.Text

/-- What comes before and after the first occurrence of `op`, or `none` where
    `op` does not occur. -/
def cutAt? (op : List Char) : List Char → Option (List Char × List Char)
  | [] => none
  | c :: cs =>
    if op.isPrefixOf (c :: cs) then some ([], (c :: cs).drop op.length)
    else (cutAt? op cs).map fun (before, after) => (c :: before, after)

end LineShell.Text
