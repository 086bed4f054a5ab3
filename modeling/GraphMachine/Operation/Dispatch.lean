import GraphMachine.Evaluation
import GraphMachine.Event
import GraphMachine.Operation.Parser
import GraphMachine.Sink

/-!
# Doing operations

An operation works on memory, on the output and on the log, one step after the other.  A step that
fails ends the operation, and what was done before it stays done.
-/

namespace GraphMachine

/-- What an operation works on. -/
structure World where
  memory : Memory
  out : Sink
  /-- What was logged, the latest last. -/
  events : List Event

/-- Steps on a world, any of which may fail.  The world is as they leave it, also if they fail. -/
abbrev Action := ExceptT OperationError (StateM World)

namespace Action

def log (e : Event) : Action Unit :=
  modify fun w => { w with events := w.events ++ [e] }

/-- Finds out something about memory. -/
def consult {α : Type} (mode : AddressingMode) (look : Scope → Except EvalError α) : Action α :=
  fun w => ((look ⟨w.memory, mode⟩).mapError .eval, w)

def change {α : Type} (x : MemoryM α) : Action α :=
  fun w =>
    let (result, memory) := x.run.run w.memory
    (result.mapError .eval, { w with memory })

/-- Writes a line.  The output may take a part of it and refuse the rest. -/
def writeLine (line : String) : Action Unit :=
  fun w =>
    let (taken, out) := w.out.write (line ++ "\n")
    (if taken then .ok () else .error .output, { w with out })

end Action

namespace Operation

open Action

/-- The line that an output writes. -/
def line (s : Scope) (maxDepth : Nat) : Printed → Except EvalError String
  | .template text => Template.render s text
  | .value expression => (evaluate s maxDepth expression).map fun v => Decimal.ofWord v.toWord

/-- Does an operation, and gives the answer of a test. -/
def dispatch (mode : AddressingMode) (maxDepth : Nat) (op : Operation) : Action (Option Bool) := do
  log (.dispatched op.keyword)
  match op with
  | set target expression =>
      let value ← consult mode fun s => evaluate s maxDepth expression
      change (target.assign mode value.toWord)
      log (.stored target value.toWord)
      return none
  | increment target =>
      let value ← consult mode target.read
      change (target.assign mode (value + 1))
      return none
  | decrement target =>
      let value ← consult mode target.read
      change (target.assign mode (value - 1))
      return none
  | output printed =>
      let text ← consult mode fun s => line s maxDepth printed
      writeLine text
      return none
  | check none =>
      let result := (← get).memory.current != 0
      log (.checked result)
      return some result
  | check (some condition) =>
      let value ← consult mode fun s => evaluate s maxDepth condition
      log (.checked value.toBool)
      return some value.toBool
  | shift delta =>
      change (modify fun m => m.shift delta)
      log (.shifted delta (← get).memory.pointer)
      return none

def act (mode : AddressingMode) (maxDepth : Nat) (text : String) : Action (Option Bool) :=
  match parse text with
  | .error err => throw err
  | .ok op => op.dispatch mode maxDepth

/-- How an operation ended: its answer or error, memory and output afterwards. -/
structure Done where
  result : Except OperationError (Option Bool)
  memory : Memory
  out : Sink

/-- What is left of an operation when its log is dropped. -/
def Done.ofAction (x : Action (Option Bool)) (memory : Memory) (out : Sink) : Done :=
  let (result, w) := x.run.run ⟨memory, out, []⟩
  ⟨result, w.memory, w.out⟩

def execute (op : Operation) (s : Scope) (maxDepth : Nat) (out : Sink) : Done :=
  .ofAction (op.dispatch s.mode maxDepth) s.memory out

/-- Reads an operation and does it in a scope. -/
def perform (text : String) (s : Scope) (maxDepth : Nat) (out : Sink) : Done :=
  .ofAction (act s.mode maxDepth text) s.memory out

end Operation
end GraphMachine
