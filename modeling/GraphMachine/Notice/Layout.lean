import GraphMachine.Notice.Basic
import GraphMachine.Notice.Place
import GraphMachine.Text.Whitespace
import GraphMachine.Text.Width

/-!
# Layout of notices

A notice is drawn in a frame.  Below its headline come the place that it is about, the line at that
place, a row that underlines the marked part, a row with an arrow to the label, and the advice.  If
the marked part does not lie on that line, an empty row stands for the line and the rows below it.
A notice without a place is its headline alone.
-/

namespace GraphMachine
namespace Notice

/-- The parts of a drawing that colours tell apart. -/
inductive Ink where
  /-- The frame. -/
  | frame
  /-- The frame beside rows that are not of the source. -/
  | margin
  /-- The marked part and what belongs to it. -/
  | marked
  /-- The rest of the line. -/
  | unmarked
  /-- The word before an advice. -/
  | advice
deriving DecidableEq, Repr

namespace Ink

/-- The number of an ink in the palette of 256 colours. -/
def number : Ink → Nat
  | frame => 246
  | margin => 240
  | marked => 155
  | unmarked => 249
  | advice => 115

end Ink

/-- A text after the escape sequence with the given code, and the sequence that ends it. -/
def escaped (code text : String) : String :=
  "\x1b[" ++ code ++ "m" ++ text ++ "\x1b[0m"

/-- A text in an ink, if colours are used. -/
def paint (color : Bool) (ink : Ink) (text : String) : String :=
  if color then escaped ("38;5;" ++ Decimal.ofNat ink.number) text else text

/-- The first line of a notice. -/
def headline (color : Bool) (n : Notice) : String :=
  let title := "[" ++ n.code ++ "] " ++ n.severity.word ++ ":"
  (if color then escaped n.severity.colorCode title else title) ++ " " ++
    n.message ++ "\n"

/-- The same character so many times. -/
def row (c : Char) (count : Nat) : String :=
  String.ofList (List.replicate count c)

/-- A tab stop is at every fourth column. -/
def tabWidth : Nat :=
  4

/-- How many columns the character with an index on its line takes. -/
def columns (index : Nat) (c : Char) : Nat :=
  if c = '\t' then tabWidth - index % tabWidth
  else if Text.isWhite c then 1
  else Text.width c

/-- How many columns the character with an index takes, or the place of one past the end. -/
def columnsAt (cs : List Char) (index : Nat) : Nat :=
  match cs[index]? with
  | some c => columns index c
  | none => 1

/-- How the character with an index is shown.  White characters are shown as spaces, and any other
one stands for itself. -/
def shown (index : Nat) (c : Char) : List Char :=
  if Text.isWhite c then List.replicate (columns index c) ' ' else [c]

/-- Whether the character with an index is marked. -/
def Mark.covers (m : Mark) (index : Nat) : Bool :=
  m.place.column ≤ index && index < m.place.column + m.length

/-- The index of the character from which the arrow starts. -/
def Mark.middle (m : Mark) : Nat :=
  m.place.column + m.length / 2

/-- The line at the place, without white characters at its end. -/
def Mark.text (m : Mark) : List Char :=
  Text.trimEnd m.place.line

/-- The line at the place as it is shown, character by character. -/
def sourceText (color : Bool) (m : Mark) : String :=
  String.join <| m.text.mapIdx fun index c =>
    let ink := if m.covers index then Ink.marked else Ink.unmarked
    String.join ((shown index c).map fun d => paint color ink (String.singleton d))

/-- The columns of a row below a character: a first one and further ones, or none at all. -/
def cells (count : Nat) (first further : String) : String :=
  match count with
  | 0 => ""
  | more + 1 => first ++ String.join (List.replicate more further)

/-- A row below the line: for each character of the line a first column and further ones, up to two
characters past the mark. -/
def rowBelow (m : Mark) (cell : Nat → String × String) : String :=
  String.join <| (List.range (m.place.column + m.length + 2)).map fun index =>
    let (first, further) := cell index
    cells (columnsAt m.text index) first further

def underline (color : Bool) (m : Mark) : String :=
  let ink := paint color .marked
  rowBelow m fun index =>
    if index = m.middle then (ink "┬", ink "─")
    else if m.covers index then (ink "─", ink "─")
    else (" ", " ")

def arrow (color : Bool) (m : Mark) : String :=
  let ink := paint color .marked
  rowBelow m fun index =>
    if index = m.middle then (ink "╰", ink "─")
    else if m.middle < index then (ink "─", ink "─")
    else (" ", " ")

/-- The frame around a mark, with the label and an advice. -/
def frame (color : Bool) (name label : String) (help : Option String) (m : Mark) : String :=
  let number := Decimal.ofNat m.place.number
  let width := number.length
  let indent := row ' ' (width + 2)
  let ink := paint color .frame
  let margin := " " ++ paint color .margin (row ' ' (width + 1) ++ "│") ++ " "
  let place :=
    " " ++ name ++ ":" ++ number ++ ":" ++ Decimal.ofNat (m.place.column + 1) ++ " "
  let advice := match help with
    | none => ""
    | some text => margin ++ "\n" ++ margin ++ paint color .advice "Help" ++ ": " ++ text ++ "\n"
  let extract :=
    if m.onLine then
      " " ++ ink (number ++ " │") ++ " " ++ sourceText color m ++ "\n" ++
        margin ++ underline color m ++ "\n" ++
        margin ++ arrow color m ++ " " ++ label ++ "\n"
    else
      margin ++ "\n"
  indent ++ ink "╭" ++ ink "─" ++ ink "[" ++ place ++ ink "]" ++ "\n" ++
    indent ++ ink "│" ++ "\n" ++
    extract ++
    advice ++
    ink (row '─' (width + 2) ++ "╯") ++ "\n"

/-- Draws a notice about a program with a name and a source. -/
def render (color : Bool) (name source : String) (n : Notice) : String :=
  headline color n ++
    match n.span.bind (mark? source.toList) with
    | none => ""
    | some m => frame color name n.label n.help m

/-- Draws the error of a run that failed. -/
def renderRunError (color : Bool) (name source : String) (g : Graph) (e : Run.RunError) :
    String :=
  match ofRunError g e with
  | some n => n.render color name source
  | none => "Error: " ++ e.message ++ ": " ++ Sink.refusal ++ "\n"

def renderDiagnostic (color : Bool) (name source : String) (d : Run.Diagnostic) : String :=
  (ofDiagnostic d).render color name source

end Notice
end GraphMachine
