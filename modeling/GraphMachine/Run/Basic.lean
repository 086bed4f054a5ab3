import GraphMachine.Graph
import GraphMachine.Operation.Basic

/-!
# Options and results of runs

A run either comes to an end and is reported, or stops with an error.  Operations that fail are
skipped and noted; they never stop a run.
-/

namespace GraphMachine
namespace Run

/-- How a program is run. -/
structure Options where
  mode : AddressingMode
  /-- How many nodes may be executed, if there is a limit. -/
  maxSteps : Option Nat
  /-- How deeply expressions may be nested. -/
  maxDepth : Nat
  /-- Whether every step is written to the output. -/
  debug : Bool
deriving DecidableEq, Repr

namespace Options

def standard : Options :=
  ⟨.tape, some 1000000, 256, false⟩

end Options

/-- An operation that was skipped. -/
structure Diagnostic where
  step : Nat
  node : String
  /-- The operation in the source. -/
  span : Option Span
  error : OperationError
deriving DecidableEq, Repr

/-- What is reported of a run that came to an end. -/
structure Report where
  steps : Nat
  /-- The node at which the run ended. -/
  haltedAt : String
  pointer : Int64
  diagnostics : Array Diagnostic
deriving DecidableEq, Repr

/-- Why a run stopped. -/
inductive RunError where
  /-- A node is not declared; an edge of the other node leads there, or it is the start. -/
  | nodeNotFound (name : String) (referencedBy : Option String)
  | tooManyEdges (node : String) (count : Nat)
  /-- The step limit was reached before a node. -/
  | stepLimit (limit : Nat) (node : String)
  /-- The output refused to take more. -/
  | output
deriving DecidableEq, Repr

namespace RunError

def message : RunError → String
  | nodeNotFound name _ => "node `" ++ name ++ "` not found"
  | tooManyEdges node count =>
      "node `" ++ node ++ "` has " ++ Decimal.ofNat count ++ " edges, at most " ++
        Decimal.ofNat Node.maxEdges ++ " are allowed"
  | stepLimit limit node =>
      "run exceeded the limit of " ++ Decimal.ofNat limit ++ " steps (next node `" ++ node ++ "`)"
  | output => "failed to write output"

end RunError
end Run
end GraphMachine
