import GraphMachine.Expr.Basic
import GraphMachine.Text.Cut
import GraphMachine.Text.Whitespace

/-!
# Tokens of expressions

A text is cut into numbers, identifiers, operators and parentheses.  Gaps may stand between tokens
and not inside them, and every token is as long as possible.  A character that starts no token is
kept as a stray one, so that cutting never fails.
-/

namespace GraphMachine

/-- Tokens of expressions. -/
inductive Token where
  | integer (digits : List Char)
  | ident (name : List Char)
  | operator (op : Operator)
  | opening
  | closing
  | stray (c : Char)
deriving DecidableEq, Repr

structure Lexeme where
  token : Token
  position : Nat
deriving DecidableEq, Repr

namespace Token

/-- The operator or parenthesis that starts with a character, and how many further characters it
takes. -/
def symbolAt : Char → List Char → Token × Nat
  | '(', _ => (opening, 0)
  | ')', _ => (closing, 0)
  | '=', '=' :: _ => (operator (.compare .eq), 1)
  | '!', '=' :: _ => (operator (.compare .ne), 1)
  | '<', '=' :: _ => (operator (.compare .le), 1)
  | '>', '=' :: _ => (operator (.compare .ge), 1)
  | '<', _ => (operator (.compare .lt), 0)
  | '>', _ => (operator (.compare .gt), 0)
  | '+', _ => (operator (.arith .add), 0)
  | '-', _ => (operator (.arith .sub), 0)
  | '*', _ => (operator (.arith .mul), 0)
  | '/', _ => (operator (.arith .div), 0)
  | '%', _ => (operator (.arith .rem), 0)
  | c, _ => (stray c, 0)

/-- The token that starts with a character, and how many further characters it takes. -/
def startingAt (c : Char) (rest : List Char) : Token × Nat :=
  if c.isDigit then
    let more := rest.takeWhile Char.isDigit
    (integer (c :: more), more.length)
  else if Text.isWordStart c then
    let more := rest.takeWhile Text.isWordChar
    (ident (c :: more), more.length)
  else
    symbolAt c rest

/-- The tokens of a text that starts at a position, after some characters that a token before it
has already taken. -/
def lexFrom (position : Nat) : Nat → List Char → List Lexeme
  | _, [] => []
  | taken + 1, c :: cs => lexFrom (position + c.utf8Size) taken cs
  | 0, c :: cs =>
      if Text.isGap c then
        lexFrom (position + c.utf8Size) 0 cs
      else
        let found := startingAt c cs
        ⟨found.1, position⟩ :: lexFrom (position + c.utf8Size) found.2 cs

def lex (text : List Char) : List Lexeme :=
  lexFrom 0 0 text

end Token
end GraphMachine
