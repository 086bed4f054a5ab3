import GraphMachine.EvalError
import GraphMachine.Memory

/-!
# Evaluation of expressions

Expressions are evaluated from left to right against a memory.  Arithmetic wraps around at the
ends of the word range, division truncates toward zero, and comparisons give truth values.

The evaluator counts how deeply it stands in the tree and refuses to go deeper than its limit.
`Expr.value` is the same evaluation without a limit.
-/

namespace GraphMachine

/-- Results of expressions. -/
inductive Value where
  | int (value : Int64)
  | bool (value : Bool)
deriving DecidableEq, Repr

namespace Value

/-- A value as a word: true is one and false is zero. -/
def toWord : Value → Int64
  | int v => v
  | bool true => 1
  | bool false => 0

/-- A value as a truth value: a word is true if it is not zero. -/
def toBool : Value → Bool
  | int v => v != 0
  | bool b => b

def boolText : Bool → String
  | true => "true"
  | false => "false"

/-- A value in decimal or as a truth value. -/
def text : Value → String
  | int v => Decimal.ofWord v
  | bool b => boolText b

end Value

/-- What names and references are read from. -/
structure Scope where
  memory : Memory
  mode : AddressingMode

namespace Scope

/-- The value of a named cell, where names may be used. -/
def named (s : Scope) (name : String) : Except EvalError Int64 :=
  match s.mode with
  | .named => .ok (s.memory.getNamed name)
  | .tape => .error (.namedMemoryDisabled name)

end Scope

namespace ArithOp

def apply : ArithOp → Int64 → Int64 → Except EvalError Int64
  | add, a, b => .ok (a + b)
  | sub, a, b => .ok (a - b)
  | mul, a, b => .ok (a * b)
  | div, a, b => if b = 0 then .error .divisionByZero else .ok (a / b)
  | rem, a, b => if b = 0 then .error .moduloByZero else .ok (a % b)

end ArithOp

namespace CompareOp

def apply : CompareOp → Int64 → Int64 → Bool
  | eq, a, b => a == b
  | ne, a, b => a != b
  | le, a, b => a ≤ b
  | ge, a, b => b ≤ a
  | lt, a, b => a < b
  | gt, a, b => b < a

end CompareOp

namespace Operator

/-- Applies an operator to two values, read as words. -/
def apply (op : Operator) (a b : Value) : Except EvalError Value :=
  match op with
  | arith o =>
      match o.apply a.toWord b.toWord with
      | .ok v => .ok (.int v)
      | .error err => .error err
  | compare o => .ok (.bool (o.apply a.toWord b.toWord))

end Operator

/-- Evaluation that counts how deeply it stands in the tree. -/
abbrev EvalM := ExceptT EvalError (StateM Nat)

namespace Expr

/-- Evaluates one level deeper, and steps back afterwards whatever the result is. -/
def nested {α : Type} (limit : Nat) (inner : EvalM α) : EvalM α :=
  fun depth =>
    if depth < limit then
      let (result, below) := inner (depth + 1)
      (result, below - 1)
    else
      (.error (.depthExceeded limit), depth)

/-- Evaluates a tree at the level at which the evaluator stands. -/
def evalM (s : Scope) (limit : Nat) : Expr → EvalM Value
  | integer v => nested limit (pure (.int v))
  | ident name => nested limit do
      let v ← liftM (s.named name)
      pure (.int v)
  | neg e => nested limit do
      let v ← evalM s limit e
      pure (.int (-v.toWord))
  | binary op l r => nested limit do
      let a ← evalM s limit l
      let b ← evalM s limit r
      liftM (op.apply a b)

/-- Evaluates a tree that is at most so many levels high. -/
def eval (s : Scope) (limit : Nat) (e : Expr) : Except EvalError Value :=
  ((evalM s limit e).run.run 0).1

/-- Evaluates trees one after the other with one evaluator. -/
def evalAll (s : Scope) (limit : Nat) (es : List Expr) : List (Except EvalError Value) :=
  ((es.mapM fun e => (evalM s limit e).run).run 0).1

/-- The value of a tree, without a limit on its height. -/
def value (s : Scope) : Expr → Except EvalError Value
  | integer v => .ok (.int v)
  | ident name => do
      let v ← s.named name
      pure (.int v)
  | neg e => do
      let v ← value s e
      pure (.int (-v.toWord))
  | binary op l r => do
      let a ← value s l
      let b ← value s r
      op.apply a b

/-- A tree as a fully bracketed text with the operator in front. -/
def treeText : Expr → String
  | integer v => Decimal.ofWord v
  | ident name => name
  | neg e => "(neg " ++ e.treeText ++ ")"
  | binary op l r => "(" ++ op.symbol ++ " " ++ l.treeText ++ " " ++ r.treeText ++ ")"

end Expr
end GraphMachine
