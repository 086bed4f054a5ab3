import GraphMachine.Reference.Slot

/-!
# Templates

A template is a text with references in it.  Filling a template replaces every reference by the
value of its cell.  In an expression negative values are put in parentheses, so that a value is an
operand wherever a reference is one; the smallest word has no literal and is written as a
difference.  In output values are written plainly.

A template is read as a whole before any cell is read, and cells are read from left to right.
-/

namespace GraphMachine
namespace Template

/-- A part of a template. -/
inductive Piece where
  | char (c : Char)
  | slot (s : Slot)
deriving DecidableEq, Repr

open Peg

/-- Characters up to the next open brace. -/
def textRule : Peg (List Piece) :=
  rule .text (List.map Piece.char <$> run1 (· != '\x7b'))

/-- A reference or the text before one. -/
def part : Peg (List Piece) :=
  (do let slot ← Slot.referenceRule; pure [.slot slot]) <|> textRule

def templateRule (fuel : Nat) : Peg (List Piece) :=
  rule .template do
    let parts ← repeated part fuel
    endOfText
    pure parts.flatten

/-- The pieces of a text.  Fails with the furthest position at which one of the rules failed. -/
def scan (text : List Char) : Except Nat (List Piece) :=
  ((templateRule (text.length + 1)).parse text).mapError Prod.fst

/-- Replaces the references by values, written in the given form. -/
def fill (form : Int64 → List Char) (s : Scope) : List Piece → Except EvalError (List Char)
  | [] => .ok []
  | .char c :: ps =>
      match fill form s ps with
      | .ok cs => .ok (c :: cs)
      | .error err => .error err
  | .slot slot :: ps =>
      match slot.read s with
      | .error err => .error err
      | .ok v =>
          match fill form s ps with
          | .ok cs => .ok (form v ++ cs)
          | .error err => .error err

/-- Replaces the references of a text by values, written in the given form. -/
def substitute (form : Int64 → List Char) (s : Scope) (text : String) :
    Except EvalError String := do
  let pieces ← (scan text.toList).mapError fun position =>
    .malformedReference text ⟨position, Text.byteLength text.toList⟩
  let cs ← fill form s pieces
  pure (String.ofList cs)

/-- A value in output. -/
def plain (v : Int64) : List Char :=
  (Decimal.ofWord v).toList

/-- A value as an operand of an expression. -/
def operand (v : Int64) : List Char :=
  if v = Int64.minValue then
    "(-".toList ++ plain Int64.maxValue ++ " - 1)".toList
  else if v < 0 then
    '(' :: plain v ++ [')']
  else
    plain v

def resolve (s : Scope) (text : String) : Except EvalError String :=
  substitute operand s text

def render (s : Scope) (text : String) : Except EvalError String :=
  substitute plain s text

end Template
end GraphMachine
