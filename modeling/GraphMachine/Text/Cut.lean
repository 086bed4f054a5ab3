/-!
# Cutting texts

Names, and cuts of a text at the first, at the last or at every occurrence of a character.
-/

namespace GraphMachine
namespace Text

/-- Letters, digits and the underscore. -/
def isWordChar (c : Char) : Bool :=
  c.isAlphanum || c == '_'

/-- Letters and the underscore, which start an identifier. -/
def isWordStart (c : Char) : Bool :=
  c.isAlpha || c == '_'

/-- The longest word at the start of a text whose first character is of the given class. -/
def word? (isStart : Char → Bool) : List Char → Option (List Char × List Char)
  | [] => none
  | c :: cs =>
      if isStart c then
        some (c :: cs.takeWhile isWordChar, cs.dropWhile isWordChar)
      else
        none

/-- The identifier at the start of a text. -/
def identifier? (cs : List Char) : Option (List Char × List Char) :=
  word? isWordStart cs

/-- The text before and after the first occurrence of a character. -/
def cutFirst (d : Char) : List Char → Option (List Char × List Char)
  | [] => none
  | c :: cs =>
      if c = d then
        some ([], cs)
      else
        (cutFirst d cs).map fun (before, after) => (c :: before, after)

/-- The text before and after the last occurrence of a character. -/
def cutLast (d : Char) : List Char → Option (List Char × List Char)
  | [] => none
  | c :: cs =>
      match cutLast d cs with
      | some (before, after) => some (c :: before, after)
      | none => if c = d then some ([], cs) else none

/-- The pieces of a text between the occurrences of a character, at least one. -/
def pieces (d : Char) : List Char → List (List Char)
  | [] => [[]]
  | c :: cs =>
      if c = d then
        [] :: pieces d cs
      else
        match pieces d cs with
        | [] => [[c]]
        | p :: ps => (c :: p) :: ps

/-- The text inside a pair of the given quotes. -/
def unquoteBy? (q : Char) : List Char → Option (List Char)
  | [] => none
  | c :: cs =>
      if c = q then
        match cs.reverse with
        | [] => none
        | d :: ds => if d = q then some ds.reverse else none
      else
        none

/-- The text inside a pair of double or single quotes. -/
def unquote? (cs : List Char) : Option (List Char) :=
  (unquoteBy? '"' cs).or (unquoteBy? '\'' cs)

end Text
end GraphMachine
