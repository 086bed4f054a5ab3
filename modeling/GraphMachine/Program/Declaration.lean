import GraphMachine.Graph
import GraphMachine.Text.Cut
import GraphMachine.Text.Whitespace

/-!
# Declarations

A line declares a node if it starts with a name in angle brackets.  A list of edges in square
brackets and an operation in braces may follow.  The edges end at the first closing bracket and
the operation at the last closing brace.  A part that is not closed is left over like any other
text after the declaration.
-/

namespace GraphMachine

/-- A declaration on a line. -/
structure Declaration where
  name : List Char
  edges : List (List Char)
  /-- The operation and its position in the line. -/
  operation : Option (List Char × Nat)
  /-- What is left of the line. -/
  leftover : List Char
deriving DecidableEq, Repr

namespace Declaration

/-- The name in angle brackets that a line starts with, and the rest of the line. -/
def header? (line : List Char) : Option (List Char × List Char) :=
  match Text.skipBlanks line with
  | [] => none
  | c :: opened =>
      if c = '<' then
        match Text.word? Text.isWordChar (Text.skipBlanks opened) with
        | none => none
        | some (name, rest) =>
            match Text.skipBlanks rest with
            | [] => none
            | d :: after => if d = '>' then some (name, after) else none
      else
        none

/-- The edges between square brackets.  A single empty one stands for none. -/
def edgesOf (inside : List Char) : List (List Char) :=
  match (Text.pieces '|' inside).map Text.trim with
  | [[]] => []
  | edges => edges

/-- The list of edges that a text starts with, and the rest of the text after blanks. -/
def takeEdges (text : List Char) : List (List Char) × List Char :=
  match text with
  | [] => ([], [])
  | c :: opened =>
      if c = '[' then
        match Text.cutFirst ']' opened with
        | some (inside, after) => (edgesOf inside, Text.skipBlanks after)
        | none => ([], c :: opened)
      else
        ([], c :: opened)

/-- The operation that a text at a position starts with, and the rest of the text. -/
def takeOperation (position : Nat) (text : List Char) :
    Option (List Char × Nat) × List Char :=
  match text with
  | [] => (none, [])
  | c :: opened =>
      if c = '\x7b' then
        match Text.cutLast '\x7d' opened with
        | none => (none, c :: opened)
        | some (inside, after) =>
            match Text.trim inside with
            | [] => (none, after)
            | d :: ds =>
                let start := position + 1 + Text.positionOf inside (Text.trimStart inside)
                (some (d :: ds, start), after)
      else
        (none, c :: opened)

def parse? (line : List Char) : Option Declaration :=
  match header? line with
  | none => none
  | some (name, rest) =>
      let (edges, body) := takeEdges (Text.skipBlanks rest)
      let (operation, leftover) := takeOperation (Text.positionOf line body) body
      some ⟨name, edges, operation, leftover⟩

/-- The node that is declared, for a line with a number that starts at an offset. -/
def node (d : Declaration) (number offset : Nat) (line : List Char) : Node where
  name := String.ofList d.name
  edges := d.edges.map String.ofList
  operation := d.operation.map fun (text, _) => String.ofList text
  line := number
  span :=
    ⟨offset + Text.positionOf line (Text.trimStart line),
      offset + Text.byteLength (Text.trimEnd line)⟩
  operationSpan := d.operation.map fun (text, start) =>
    ⟨offset + start, offset + start + Text.byteLength text⟩

/-- Left over text that looks like a part that is not closed. -/
def unclosed? (d : Declaration) : Option (List Char) :=
  match Text.trimStart d.leftover with
  | [] => none
  | c :: cs => if c = '[' ∨ c = '\x7b' then some (c :: cs) else none

end Declaration
end GraphMachine
