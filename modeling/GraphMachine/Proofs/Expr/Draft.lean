import GraphMachine.EvalError
import GraphMachine.Proofs.Expr.Token

/-!
# The reading automaton

The parsing expressions of a text try alternatives and go back.  What they find can be described
without that: tokens are read from left to right by an automaton with a stack.  It either wants an
operand or holds one; the stack has an entry for every open parenthesis, for every unary minus and
for every left operand that waits for its right side.  The first token without a transition is the
one that an error points at, and the state says what could have stood there.

The tree that comes out is a draft: its leaves still have their text and know how many parentheses
are around them.  A second pass turns drafts into expressions, with limits on nesting and on the
size of literals; the leftmost leaf that breaks a limit decides the error.
-/

namespace GraphMachine

/-- An expression as written. -/
inductive Draft where
  | integer (digits : List Char) (nesting : Nat)
  | ident (name : List Char) (nesting : Nat)
  | neg (operand : Draft)
  | binary (op : Operator) (left right : Draft)
deriving DecidableEq, Repr

namespace Draft

/-- Pending work while an expression is read. -/
inductive Frame where
  /-- An open parenthesis. -/
  | group
  /-- A unary minus whose operand is not complete. -/
  | minus
  /-- A left operand and its operator. -/
  | left (operand : Draft) (op : Operator)
deriving DecidableEq, Repr

/-- The reading automaton. -/
inductive State where
  /-- An operand has to come next. -/
  | wanting (frames : List Frame)
  /-- An operand was read; an operator, a closing parenthesis or the end can come next. -/
  | holding (operand : Draft) (frames : List Frame)
deriving DecidableEq, Repr

/-- Number of open parentheses. -/
def nesting : List Frame → Nat
  | [] => 0
  | .group :: fs => nesting fs + 1
  | .minus :: fs => nesting fs
  | .left _ _ :: fs => nesting fs

/-- Whether an expression starts here: nothing stands before it but an open parenthesis. -/
def atStart : List Frame → Bool
  | [] => true
  | .group :: _ => true
  | _ => false

/-- What can stand where an operand has to come. -/
def wanted (frames : List Frame) : List Expectation :=
  if atStart frames then [.expression] else Expectation.operands

/-- What can stand after an operand, apart from a closing parenthesis. -/
def continuation (frames : List Frame) : List Expectation :=
  if nesting frames = 0 then .endOfText :: Expectation.operators else Expectation.operators

/-- A primary is complete: the minus signs before it apply to it. -/
def complete (operand : Draft) : List Frame → State
  | .minus :: fs => complete (.neg operand) fs
  | fs => .holding operand fs

/-- Applies the waiting operators that bind at least as tightly as a level. -/
def reduce (level : Nat) (operand : Draft) : List Frame → Draft × List Frame
  | .left l op :: fs =>
      if level ≤ op.level then
        reduce level (.binary op l operand) fs
      else
        (operand, .left l op :: fs)
  | fs => (operand, fs)

namespace State

/-- Reads one token, or says what could have stood in its place. -/
def step : State → Token → Except (List Expectation) State
  | wanting fs, .integer digits => .ok (complete (.integer digits (nesting fs)) fs)
  | wanting fs, .ident name => .ok (complete (.ident name (nesting fs)) fs)
  | wanting fs, .opening => .ok (wanting (.group :: fs))
  | wanting fs, .operator (.arith .sub) => .ok (wanting (.minus :: fs))
  | wanting fs, _ => .error (wanted fs)
  | holding e fs, .operator op =>
      let (l, rest) := reduce op.level e fs
      .ok (wanting (.left l op :: rest))
  | holding e fs, .closing =>
      match reduce 0 e fs with
      | (inner, .group :: rest) => .ok (complete inner rest)
      | _ => .error (continuation fs)
  | holding _ fs, _ => .error (continuation fs)

/-- The tree at the end of the text, or what is still missing. -/
def finish : State → Except (List Expectation) Draft
  | wanting fs => .error (wanted fs)
  | holding e fs =>
      match reduce 0 e fs with
      | (tree, []) => .ok tree
      | _ => .error (continuation fs)

/-- Reads the remaining tokens of a text that ends at the given position.  An error comes with the
position of the token that has no transition. -/
def read (stop : Nat) : State → List Lexeme → Except (Nat × List Expectation) Draft
  | s, [] =>
      match s.finish with
      | .ok tree => .ok tree
      | .error expected => .error (stop, expected)
  | s, l :: ls =>
      match s.step l.token with
      | .ok next => read stop next ls
      | .error expected => .error (l.position, expected)

end State

def parse (text : List Char) : Except (Nat × List Expectation) Draft :=
  State.read (Text.byteLength text) (.wanting []) (Token.lex text)

/-- Whether a leaf with so many parentheses around it is nested too deeply: each parenthesis and
the leaf itself count twice. -/
def tooDeep (maxDepth nesting : Nat) : Bool :=
  maxDepth < 2 * nesting + 2

/-- The expression of a draft, within limits on nesting and literals. -/
def toExpr (maxDepth : Nat) : Draft → Except EvalError Expr
  | integer digits nesting =>
      if tooDeep maxDepth nesting then
        .error (.depthExceeded maxDepth)
      else
        match Decimal.unsigned? digits with
        | some value => .ok (.integer value)
        | none => .error (.invalidNumber (String.ofList digits))
  | ident name nesting =>
      if tooDeep maxDepth nesting then
        .error (.depthExceeded maxDepth)
      else
        .ok (.ident (String.ofList name))
  | neg e =>
      match e.toExpr maxDepth with
      | .ok operand => .ok (.neg operand)
      | .error err => .error err
  | binary op l r =>
      match l.toExpr maxDepth with
      | .error err => .error err
      | .ok left =>
          match r.toExpr maxDepth with
          | .ok right => .ok (.binary op left right)
          | .error err => .error err

end Draft
end GraphMachine
