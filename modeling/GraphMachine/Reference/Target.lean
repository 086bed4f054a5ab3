import GraphMachine.Reference.Slot

/-!
# Destinations

A destination is a reference in braces, a bare name, or nothing, with blanks around it.  Nothing
stands for the current cell.
-/

namespace GraphMachine
namespace Target

open Peg Slot

def targetRule : Peg Slot :=
  rule .target do
    blanks
    let slot ← referenceRule <|> nameRule <|> pure empty
    blanks
    endOfText
    pure slot

def scan (text : List Char) : Except (Nat × List Expectation) Slot :=
  targetRule.parse text

/-- The cell that a destination denotes. -/
def parse (text : String) : Except EvalError Reference := do
  let slot ← (scan text.toList).mapError fun (position, expected) =>
    .invalidExpression text position expected
  slot.reference

end Target
end GraphMachine
