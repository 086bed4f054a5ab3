import GraphMachine.Operation.Basic
import GraphMachine.Reference.Target

/-!
# Reading operations

The text of an operation is a keyword, which may be followed by an argument in parentheses.  The
argument reaches to the last closing parenthesis, after which only blanks may come.
-/

namespace GraphMachine

/-- A keyword and its argument, as written. -/
structure Call where
  keyword : List Char
  argument : List Char
deriving DecidableEq, Repr

namespace Call

def parse? (text : List Char) : Option Call :=
  match Text.word? Char.isAlpha (Text.skipBlanks text) with
  | none => none
  | some (keyword, rest) =>
      match Text.skipBlanks rest with
      | [] => some ⟨keyword, []⟩
      | c :: inner =>
          if c = '(' then
            match Text.cutLast ')' inner with
            | none => none
            | some (argument, after) =>
                if after.all Text.isBlank then some ⟨keyword, argument⟩ else none
          else
            none

end Call

namespace Operation

/-- The argument of a store: an optional destination with a comma, and an expression. -/
def parseSet (argument : List Char) : Except OperationError Operation :=
  let build (target : Reference) (expression : List Char) : Except OperationError Operation :=
    match Text.trim expression with
    | [] => .error (.invalidArgument .missingValue)
    | c :: cs => .ok (.set target (String.ofList (c :: cs)))
  match Text.cutFirst ',' argument with
  | none => build .current argument
  | some (target, expression) =>
      match Target.parse (String.ofList target) with
      | .ok r => build r expression
      | .error err => .error (.eval err)

/-- The argument of a count: an optional destination. -/
def parseTarget (build : Reference → Operation) (argument : List Char) :
    Except OperationError Operation :=
  ((Target.parse (String.ofList argument)).map build).mapError .eval

/-- The argument of an output: a quoted text, an expression, or nothing for the current cell. -/
def parseOutput (argument : List Char) : Printed :=
  let trimmed := Text.trim argument
  match Text.unquote? trimmed with
  | some text => .template (String.ofList text)
  | none =>
      match trimmed with
      | [] => .value Reference.current.text
      | c :: cs => .value (String.ofList (c :: cs))

/-- The argument of a test: a condition or nothing. -/
def parseCheck (argument : List Char) : Option String :=
  match Text.trim argument with
  | [] => none
  | c :: cs => some (String.ofList (c :: cs))

/-- Adds up moves of the pointer to the right and to the left. -/
def sumMoves (delta : Int64) : List Char → Except OperationError Int64
  | [] => .ok delta
  | c :: cs =>
      if c = '>' then
        sumMoves (delta + 1) cs
      else if c = '<' then
        sumMoves (delta - 1) cs
      else if Text.isWhite c then
        sumMoves delta cs
      else
        .error (.invalidArgument (.notAMove c))

/-- The argument of a move: arrows, which may be quoted. -/
def parseShift (argument : List Char) : Except OperationError Int64 :=
  let trimmed := Text.trim argument
  sumMoves 0 ((Text.unquote? trimmed).getD trimmed)

def ofCall (keyword : Keyword) (argument : List Char) : Except OperationError Operation :=
  match keyword with
  | .set => parseSet argument
  | .increment => parseTarget increment argument
  | .decrement => parseTarget decrement argument
  | .output => .ok (.output (parseOutput argument))
  | .check => .ok (.check (parseCheck argument))
  | .shift =>
      match parseShift argument with
      | .ok delta => .ok (.shift delta)
      | .error err => .error err

/-- Reads an operation. -/
def parse (text : String) : Except OperationError Operation :=
  match Call.parse? text.toList with
  | none => .error (.malformed text)
  | some call =>
      match Keyword.ofName? (String.ofList call.keyword) with
      | none => .error (.unsupported (String.ofList call.keyword))
      | some keyword => ofCall keyword call.argument

end Operation
end GraphMachine
