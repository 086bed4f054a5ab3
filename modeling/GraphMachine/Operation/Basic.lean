import GraphMachine.Reference.Basic

/-!
# Operations

A node of a program does one of six things: store the value of an expression, count a cell up or
down, write a line, test a condition, or move the pointer.
-/

namespace GraphMachine

/-- The names of the operations. -/
inductive Keyword where
  | set
  | increment
  | decrement
  | output
  | check
  | shift
deriving DecidableEq, Repr

namespace Keyword

def name : Keyword → String
  | set => "SET"
  | increment => "INCREMENT"
  | decrement => "DECREMENT"
  | output => "OUTPUT"
  | check => "CHECK"
  | shift => "SHIFT"

def all : List Keyword :=
  [set, increment, decrement, output, check, shift]

def ofName? (text : String) : Option Keyword :=
  all.find? fun k => k.name == text

end Keyword

/-- What a line of output is made of. -/
inductive Printed where
  /-- A text with references. -/
  | template (text : String)
  /-- The value of an expression. -/
  | value (expression : String)
deriving DecidableEq, Repr

/-- Operations. -/
inductive Operation where
  /-- Stores the value of an expression. -/
  | set (target : Reference) (expression : String)
  | increment (target : Reference)
  | decrement (target : Reference)
  /-- Writes a line. -/
  | output (printed : Printed)
  /-- Tests an expression, or else the current cell. -/
  | check (condition : Option String)
  /-- Moves the pointer. -/
  | shift (delta : Int64)
deriving DecidableEq, Repr

namespace Operation

def keyword : Operation → Keyword
  | set _ _ => .set
  | increment _ => .increment
  | decrement _ => .decrement
  | output _ => .output
  | check _ => .check
  | shift _ => .shift

end Operation

/-- What can be wrong with the argument of an operation. -/
inductive ArgumentFault where
  /-- There is no expression to store. -/
  | missingValue
  /-- A character is no move of the pointer. -/
  | notAMove (c : Char)
deriving DecidableEq, Repr

namespace ArgumentFault

/-- The keyword at which a fault can arise. -/
def keyword : ArgumentFault → Keyword
  | missingValue => .set
  | notAMove _ => .shift

def message : ArgumentFault → String
  | missingValue => "missing value expression"
  | notAMove c => "expected only `<` or `>`, found `" ++ String.singleton c ++ "`"

end ArgumentFault

/-- Why an operation was not done. -/
inductive OperationError where
  | unsupported (keyword : String)
  | malformed (text : String)
  | invalidArgument (fault : ArgumentFault)
  | eval (error : EvalError)
  /-- The output refused the line. -/
  | output
deriving DecidableEq, Repr

namespace OperationError

def message : OperationError → String
  | unsupported keyword => "unsupported operation `" ++ keyword ++ "`"
  | malformed text => "malformed operation `" ++ text ++ "`: expected `KEYWORD(argument)`"
  | invalidArgument fault =>
      "invalid argument for " ++ fault.keyword.name ++ ": " ++ fault.message
  | eval error => error.message
  | output => "failed to write output"

end OperationError
end GraphMachine
