import GraphMachine.Text.Span

/-!
# Places in a source

Notices show the line on which the part that they are about starts.  The ends of a span are read
here as character offsets, and besides the line feed six other characters end a line.
-/

namespace GraphMachine
namespace Notice

/-- Characters that end a line of a notice. -/
def isLineEnd (c : Char) : Bool :=
  c == '\n' || c == '\r' || c == '\x0b' || c == '\x0c' || c == '\u0085' || c == '\u2028' ||
    c == '\u2029'

/-- The lines of a source, each with what ends it.  A carriage return and a line feed after it end
a line together. -/
def sourceLines : List Char → List (List Char)
  | [] => []
  | c :: cs =>
      if isLineEnd c && !(c == '\r' && cs.head? == some '\n') then
        [c] :: sourceLines cs
      else
        match sourceLines cs with
        | [] => [[c]]
        | l :: ls => (c :: l) :: ls

/-- A character of a line. -/
structure Place where
  /-- Number of the line, from one on. -/
  number : Nat
  /-- Number of characters before it on the line. -/
  column : Nat
  line : List Char
deriving DecidableEq, Repr

/-- Finds an offset in lines with numbers from the given one on.  The end of the source belongs to
its last line. -/
def locateFrom (number offset : Nat) : List (List Char) → Option Place
  | [] => none
  | [l] => if offset ≤ l.length then some ⟨number, offset, l⟩ else none
  | l :: ls =>
      if offset < l.length then
        some ⟨number, offset, l⟩
      else
        locateFrom (number + 1) (offset - l.length) ls

/-- Finds the place of a character offset in a source. -/
def locate (source : List Char) (offset : Nat) : Option Place :=
  match sourceLines source with
  | [] => locateFrom 1 offset [[]]
  | l :: ls => locateFrom 1 offset (l :: ls)

/-- A part of a line to be marked. -/
structure Mark where
  place : Place
  /-- Number of characters to mark. -/
  length : Nat
deriving DecidableEq, Repr

/-- Whether all of the part lies on the line of its place, what ends the line included. -/
def Mark.onLine (m : Mark) : Bool :=
  m.place.column + m.length ≤ m.place.line.length

/-- The part that a span marks, if both its ends are inside the source. -/
def mark? (source : List Char) (s : Span) : Option Mark :=
  if s.start ≤ source.length ∧ s.stop - 1 ≤ source.length then
    (locate source s.start).map fun place => ⟨place, s.stop - s.start⟩
  else
    none

end Notice
end GraphMachine
