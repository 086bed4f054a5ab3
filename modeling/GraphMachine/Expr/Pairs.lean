import GraphMachine.Peg

/-!
# The form of expressions

An expression is a row of operands with operators between them, and every operand may have minus
signs before it.  Gaps may stand between all of these.  Reading such a row does not look at how
tightly its operators bind.
-/

namespace GraphMachine

mutual

/-- A row of operands and operators as written. -/
inductive Pairs where
  | last (minuses : Nat) (operand : Primary)
  | more (minuses : Nat) (operand : Primary) (op : Operator) (rest : Pairs)

/-- An operand without the minus signs before it. -/
inductive Primary where
  | integer (digits : List Char)
  | ident (name : List Char)
  | grouped (inner : Pairs)

end

namespace Pairs

/-- An operand with the number of minus signs before it. -/
abbrev Atom :=
  Nat × Primary

/-- The row of a first operand and of operators with the operands behind them. -/
def ofList : Atom → List (Operator × Atom) → Pairs
  | (minuses, operand), [] => last minuses operand
  | (minuses, operand), (op, atom) :: rest => more minuses operand op (ofList atom rest)

open Peg

def integer : Peg Primary :=
  rule .integer (Primary.integer <$> run1 Char.isDigit)

def ident : Peg Primary :=
  rule .ident (Primary.ident <$> identifier)

def minus : Peg Unit :=
  rule .minus (literal ['-'])

/-- The operators of a list, tried in their order. -/
def oneOf : List (Operator × List Char) → Peg Operator
  | [] => failure
  | (op, symbol) :: ops => rule (.operator op) (do literal symbol; pure op) <|> oneOf ops

def symbols : List (Operator × List Char) :=
  Operator.all.map fun op => (op, op.symbol.toList)

def operator : Peg Operator :=
  oneOf symbols

/-- An expression in parentheses. -/
def grouped (expression : Peg Pairs) : Peg Primary :=
  rule .grouped do
    literal ['(']
    gaps
    let inner ← expression
    gaps
    literal [')']
    pure (.grouped inner)

/-- An operand, given how parentheses are read. -/
def atom (grouped : Peg Primary) (fuel : Nat) : Peg Atom := do
  let signs ← spaced minus fuel
  gaps
  let operand ← integer <|> ident <|> grouped
  pure (signs.length, operand)

/-- An operator and the operand behind it. -/
def operation (atom : Peg Atom) : Peg (Operator × Atom) := do
  let op ← operator
  gaps
  let operand ← atom
  pure (op, operand)

/-- An expression.  Parentheses take one unit of fuel, and so does every repetition. -/
def expression : Nat → Peg Pairs
  | 0 => failure
  | fuel + 1 =>
      let operand := atom (grouped (expression fuel)) fuel
      rule .expression do
        let first ← operand
        gaps
        let rest ← spaced (operation operand) fuel
        pure (ofList first rest)

def main (fuel : Nat) : Peg Pairs :=
  rule .main do
    gaps
    let pairs ← expression fuel
    gaps
    endOfText
    pure pairs

/-- The row that a text consists of.  No text has more parentheses or operands than characters. -/
def parse (text : List Char) : Except (Nat × List Expectation) Pairs :=
  (main (text.length + 1)).parse text

end Pairs
end GraphMachine
