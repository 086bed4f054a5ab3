import GraphMachine.Expr.Basic
import GraphMachine.Text.Decimal
import GraphMachine.Text.Span

/-!
# Evaluation errors

Why a text has no value: it is not an expression, one of its references is malformed or may not be
read, a literal is too large, it is nested too deeply, or it divides by zero.
-/

namespace GraphMachine

/-- The rules of the grammars of expressions, templates and destinations.  An error names those
that could stand at the place where reading stopped. -/
inductive Expectation where
  | endOfText
  | integer
  | ident
  | grouped
  | minus
  | operator (op : Operator)
  | expression
  | main
  | offset
  | name
  | reference
  | text
  | template
  | target
deriving DecidableEq, Repr

namespace Expectation

/-- The word for it in messages. -/
def label : Expectation → String
  | endOfText => "EOI"
  | integer => "integer"
  | ident => "ident"
  | grouped => "grouped"
  | minus => "neg"
  | operator (.compare .eq) => "eq"
  | operator (.compare .ne) => "ne"
  | operator (.compare .le) => "le"
  | operator (.compare .ge) => "ge"
  | operator (.compare .lt) => "lt"
  | operator (.compare .gt) => "gt"
  | operator (.arith .add) => "add"
  | operator (.arith .sub) => "sub"
  | operator (.arith .mul) => "mul"
  | operator (.arith .div) => "div"
  | operator (.arith .rem) => "rem"
  | expression => "expression"
  | main => "main"
  | offset => "ref_offset"
  | name => "ref_name"
  | reference => "reference"
  | text => "text"
  | template => "template"
  | target => "target"

/-- Everything an operand can start with. -/
def operands : List Expectation :=
  [integer, ident, grouped, minus]

def operators : List Expectation :=
  Operator.all.map operator

/-- All rules in the order in which errors list them. -/
def all : List Expectation :=
  [endOfText] ++ operands ++ operators ++
    [expression, main, offset, name, reference, text, template, target]

/-- The rules on a list in that order, each of them once. -/
def arrange (rules : List Expectation) : List Expectation :=
  all.filter fun rule => rules.contains rule

/-- Joins three or more items with commas, and an `or` before the last. -/
def commaList : List String → String
  | [] => ""
  | [a] => "or " ++ a
  | a :: as => a ++ ", " ++ commaList as

/-- An enumeration of alternatives in words. -/
def enumerate : List String → String
  | [] => ""
  | [a] => a
  | [a, b] => a ++ " or " ++ b
  | as => commaList as

/-- The sentence that lists what was expected. -/
def detail (expected : List Expectation) : String :=
  "expected " ++ enumerate (expected.map label)

end Expectation

/-- Why a text has no value. -/
inductive EvalError where
  /-- The text is no expression or destination: reading stopped at a position. -/
  | invalidExpression (text : String) (position : Nat) (expected : List Expectation)
  /-- An open brace does not begin a reference. -/
  | malformedReference (text : String) (span : Span)
  /-- A literal does not fit into a word. -/
  | invalidNumber (literal : String)
  | divisionByZero
  | moduloByZero
  /-- A name is used although only the tape may be addressed. -/
  | namedMemoryDisabled (name : String)
  /-- The expression is nested too deeply. -/
  | depthExceeded (limit : Nat)
deriving DecidableEq, Repr

namespace EvalError

def message : EvalError → String
  | invalidExpression text _ expected =>
      "invalid expression `" ++ text ++ "`: " ++ Expectation.detail expected
  | malformedReference text _ => "malformed reference in `" ++ text ++ "`"
  | invalidNumber literal => "integer literal `" ++ literal ++ "` is out of range"
  | divisionByZero => "division by zero"
  | moduloByZero => "modulo by zero"
  | namedMemoryDisabled name =>
      "`" ++ name ++ "` names a memory cell, but named memory is disabled (tape mode)"
  | depthExceeded limit =>
      "expression nesting depth exceeds maximum of " ++ Decimal.ofNat limit ++ " levels"

/-- The place in the text that the error points at, if it has one. -/
def span? : EvalError → Option Span
  | invalidExpression _ position _ => some (.point position)
  | malformedReference _ span => some span
  | _ => none

end EvalError
end GraphMachine
