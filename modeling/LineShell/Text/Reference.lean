/-
  LineShell.Text.Reference

  References to variables in a text, and putting their values in.

  A reference is a dollar sign before a name of ASCII letters, digits and
  underscores, or before any name without a closing brace between braces.  A
  reference to a variable that is not set stays as it is written, and a value
  that has been put in is not searched again.
-/

namespace LineShell.Text

/-- The characters of a name that stands without braces. -/
def isNameChar (c : Char) : Bool :=
  c.isAlphanum || c == '_'

/-- A reference found after a dollar sign: the name of the variable, and all the
    characters that spell the reference after the sign. -/
structure Reference where
  name : List Char
  spelling : List Char

/-- The reference that the characters after a dollar sign begin with. -/
def reference? : List Char → Option Reference
  | [] => none
  | c :: cs =>
    if c = '{' then
      let name := cs.takeWhile (· != '}')
      if '}' ∈ cs then some ⟨name, '{' :: (name ++ ['}'])⟩ else none
    else
      let name := (c :: cs).takeWhile isNameChar
      if name.isEmpty then none else some ⟨name, name⟩

/-- The characters with every reference to a set variable replaced by its value;
    the first `skip` of them belong to a reference already dealt with. -/
def expandFrom (value? : List Char → Option (List Char)) : (skip : Nat) → List Char → List Char
  | _, [] => []
  | skip + 1, _ :: cs => expandFrom value? skip cs
  | 0, c :: cs =>
    if c = '$' then
      match reference? cs with
      | some r => (value? r.name).getD (c :: r.spelling) ++ expandFrom value? r.spelling.length cs
      | none => c :: expandFrom value? 0 cs
    else c :: expandFrom value? 0 cs

/-- The text with every reference to a set variable replaced by its value. -/
def expand (value? : String → Option String) (s : String) : String :=
  String.ofList <|
    expandFrom (fun name => (value? (String.ofList name)).map String.toList) 0 s.toList

end LineShell.Text
