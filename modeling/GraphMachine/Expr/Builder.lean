import GraphMachine.Expr.Pairs

/-!
# From rows to trees

A row of operands and operators becomes a tree by comparing how tightly its operators bind.  A call
that has met an operator waits for the operand behind it, and it takes that operand as soon as the
operator after it does not bind more tightly.

Operands are built with a counter.  It grows by one from an expression to its operands, and by one
from a pair of parentheses to the expression inside, and it has to stay below a limit.  An operand
that cannot be built stands in the tree as its error, and the left side of an operator is looked at
before the right one.
-/

namespace GraphMachine

/-- How tightly a minus sign binds: more than every operator. -/
def minusLevel : Nat := 5

namespace Builder

/-- What building an expression gives. -/
abbrev Answer :=
  Except EvalError Expr

/-- A call that waits for its operand. -/
inductive Frame where
  | minus
  | left (operand : Answer) (op : Operator)

namespace Frame

/-- The operand goes on only with operators of a greater power than this one. -/
def power : Frame → Nat
  | minus => 10 * minusLevel - 1
  | left _ op => 10 * op.level

/-- The call goes on with its operand. -/
def resume (answer : Answer) : Frame → Answer
  | minus => do
      let operand ← answer
      pure (.neg operand)
  | left operand op => do
      let l ← operand
      let r ← answer
      pure (.binary op l r)

end Frame

/-- Gives an operand to the waiting calls, up to one that goes on with the next operator. -/
def unwind (power : Nat) (answer : Answer) : List Frame → Answer × List Frame
  | [] => (answer, [])
  | f :: fs =>
      if f.power < power then
        (answer, f :: fs)
      else
        unwind power (f.resume answer) fs

/-- Builds only below the limit. -/
def within (maxDepth depth : Nat) (answer : Answer) : Answer :=
  if maxDepth ≤ depth then .error (.depthExceeded maxDepth) else answer

def literal (digits : List Char) : Answer :=
  match Decimal.unsigned? digits with
  | some value => .ok (.integer value)
  | none => .error (.invalidNumber (String.ofList digits))

mutual

def operand (maxDepth depth : Nat) : Primary → Answer
  | .integer digits => within maxDepth depth (literal digits)
  | .ident name => within maxDepth depth (.ok (.ident (String.ofList name)))
  | .grouped inner =>
      within maxDepth depth (within maxDepth (depth + 1) (climb maxDepth (depth + 2) [] inner))

/-- Builds the rest of a row whose operands have the given depth. -/
def climb (maxDepth depth : Nat) (frames : List Frame) : Pairs → Answer
  | .last minuses primary =>
      let waiting := List.replicate minuses .minus ++ frames
      (unwind 0 (operand maxDepth depth primary) waiting).1
  | .more minuses primary op rest =>
      let waiting := List.replicate minuses .minus ++ frames
      let (answer, left) := unwind (10 * op.level) (operand maxDepth depth primary) waiting
      climb maxDepth depth (.left answer op :: left) rest

end

def expression (maxDepth depth : Nat) (pairs : Pairs) : Answer :=
  within maxDepth depth (climb maxDepth (depth + 1) [] pairs)

end Builder

namespace Expr

/-- Reads a text as an expression that is nested at most so deeply. -/
def parse (text : String) (maxDepth : Nat) : Except EvalError Expr := do
  let pairs ← (Pairs.parse text.toList).mapError fun (position, expected) =>
    .invalidExpression text position expected
  Builder.expression maxDepth 0 pairs

end Expr
end GraphMachine
