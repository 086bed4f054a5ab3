import GraphMachine.Peg
import GraphMachine.Reference.Basic

/-!
# The inside of a reference

Between the braces of a reference stands nothing, an offset with an optional sign, or an
identifier, with blanks around it.
-/

namespace GraphMachine

/-- What stands between the braces of a reference. -/
inductive Slot where
  | empty
  | offset (literal : List Char)
  | name (word : List Char)
deriving DecidableEq, Repr

namespace Slot

open Peg

def blanks : Peg Unit :=
  discard (run Text.isBlank)

/-- A plus or minus sign, if there is one. -/
def sign : Peg (List Char) :=
  (do literal ['+']; pure ['+']) <|> (do literal ['-']; pure ['-']) <|> pure []

def offsetRule : Peg Slot :=
  rule .offset do
    let sign ← sign
    let digits ← run1 Char.isDigit
    pure (offset (sign ++ digits))

def nameRule : Peg Slot :=
  rule .name (name <$> identifier)

def referenceRule : Peg Slot :=
  rule .reference do
    literal ['\x7b']
    blanks
    let slot ← offsetRule <|> nameRule <|> pure empty
    blanks
    literal ['\x7d']
    pure slot

/-- The cell that a slot denotes. -/
def reference : Slot → Except EvalError Reference
  | empty => .ok .current
  | name word => .ok (.named (String.ofList word))
  | offset literal =>
      match Decimal.signed? literal with
      | some v => .ok (.relative v)
      | none => .error (.invalidNumber (String.ofList literal))

/-- The value of the cell that a slot denotes. -/
def read (slot : Slot) (s : Scope) : Except EvalError Int64 :=
  match slot.reference with
  | .ok r => r.read s
  | .error err => .error err

end Slot
end GraphMachine
