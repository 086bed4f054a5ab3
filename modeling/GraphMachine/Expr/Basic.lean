/-!
# Expressions

Trees over 64-bit words with five arithmetic operators, six comparisons and unary minus.
Operators are grouped in four levels; a higher level binds more tightly.
-/

namespace GraphMachine

/-- Operators from words to words. -/
inductive ArithOp where
  | add
  | sub
  | mul
  | div
  | rem
deriving DecidableEq, Repr

/-- Operators from words to truth values. -/
inductive CompareOp where
  | eq
  | ne
  | le
  | ge
  | lt
  | gt
deriving DecidableEq, Repr

/-- The binary operators. -/
inductive Operator where
  | arith (op : ArithOp)
  | compare (op : CompareOp)
deriving DecidableEq, Repr

namespace Operator

/-- The operators in the order in which they are tried.  The longer ones come first. -/
def all : List Operator :=
  [compare .eq, compare .ne, compare .le, compare .ge, compare .lt, compare .gt,
    arith .add, arith .sub, arith .mul, arith .div, arith .rem]

def symbol : Operator → String
  | arith .add => "+"
  | arith .sub => "-"
  | arith .mul => "*"
  | arith .div => "/"
  | arith .rem => "%"
  | compare .eq => "=="
  | compare .ne => "!="
  | compare .le => "<="
  | compare .ge => ">="
  | compare .lt => "<"
  | compare .gt => ">"

/-- How tightly an operator binds. -/
def level : Operator → Nat
  | compare .eq => 1
  | compare .ne => 1
  | compare .le => 2
  | compare .ge => 2
  | compare .lt => 2
  | compare .gt => 2
  | arith .add => 3
  | arith .sub => 3
  | arith .mul => 4
  | arith .div => 4
  | arith .rem => 4

end Operator

/-- Expression trees. -/
inductive Expr where
  | integer (value : Int64)
  | ident (name : String)
  | neg (operand : Expr)
  | binary (op : Operator) (left right : Expr)
deriving DecidableEq, Repr

namespace Expr

/-- Number of nodes on the longest way from the root to a leaf. -/
def height : Expr → Nat
  | integer _ => 1
  | ident _ => 1
  | neg e => e.height + 1
  | binary _ l r => max l.height r.height + 1

end Expr
end GraphMachine
