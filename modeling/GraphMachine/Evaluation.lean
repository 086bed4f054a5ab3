import GraphMachine.Expr.Builder
import GraphMachine.Reference.Template

/-!
# Evaluation of texts

The references of a text are replaced by values, the result is read as an expression, and the
expression is evaluated.
-/

namespace GraphMachine

/-- The value of an expression text with references.  One limit bounds both the nesting that is
read and the height of the tree that is evaluated. -/
def evaluate (s : Scope) (maxDepth : Nat) (text : String) : Except EvalError Value := do
  let resolved ← Template.resolve s text
  let e ← Expr.parse resolved maxDepth
  e.eval s maxDepth

end GraphMachine
