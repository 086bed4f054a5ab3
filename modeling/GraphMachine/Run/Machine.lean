import GraphMachine.Operation.Dispatch

/-!
# The machine

A run goes from node to node.  At each node the machine does the node's operation and then goes on
to the successor that the answer chooses.  It stops at a node without successors, at `end`, at a
node that is not declared or has too many edges, at the step limit, and when the output refuses.
-/

namespace GraphMachine
namespace Run

/-- A run between two steps. -/
structure Machine where
  memory : Memory
  out : Sink
  /-- Number of nodes executed so far. -/
  steps : Nat
  diagnostics : Array Diagnostic
  log : Log
  /-- The node to execute next. -/
  current : String
  /-- The node that led there. -/
  origin : Option String

/-- What one step leads to. -/
inductive Progress where
  | running (m : Machine)
  /-- The run is over: it halted at a node or failed. -/
  | ended (m : Machine) (result : Except RunError String)

/-- What came of the operation of a node. -/
inductive Outcome where
  | answered (result : Option Bool)
  | skipped (error : OperationError)
  /-- The output refused the line. -/
  | refused
deriving DecidableEq, Repr

/-- The state after the operation of a node, and what is logged about it. -/
structure Performed where
  outcome : Outcome
  memory : Memory
  out : Sink
  events : List Event

def perform (o : Options) (n : Node) (memory : Memory) (out : Sink) : Performed :=
  match n.operation with
  | none => ⟨.answered none, memory, out, []⟩
  | some text =>
      match (Operation.act o.mode o.maxDepth text).run.run ⟨memory, out, []⟩ with
      | (.ok result, w) => ⟨.answered result, w.memory, w.out, w.events⟩
      | (.error .output, w) => ⟨.refused, w.memory, w.out, w.events⟩
      | (.error err, w) =>
          ⟨.skipped err, w.memory, w.out, w.events ++ [.operationSkipped n.name n.line err]⟩

/-- The line that is written about a step for debugging. -/
def traceLine (step : Nat) (n : Node) (answer : Option Bool) (m : Memory) : String :=
  "[step " ++ Decimal.ofNat step ++ "] " ++ n.name ++ " -> " ++ (n.next answer).getD "halt" ++
    " | result: " ++ (answer.map Value.boolText).getD "none" ++ " | " ++ m.snapshot ++ "\n"

namespace Machine

def initial (out : Sink) (log : Log) : Machine where
  memory := .empty
  out := out
  steps := 0
  diagnostics := #[]
  log := log
  current := Node.startName
  origin := none

/-- Goes on from a node whose operation is over. -/
def leave (o : Options) (n : Node) (answer : Option Bool) : Machine → Progress
  | ⟨memory, out, steps, diagnostics, log, current, origin⟩ =>
      let next := n.next answer
      let log := log.add (.stepped steps n.name answer next)
      let (taken, out) :=
        if o.debug then out.write (traceLine steps n answer memory) else (true, out)
      if taken then
        match next with
        | some name =>
            .running ⟨memory, out, steps, diagnostics, log, name, some n.name⟩
        | none =>
            .ended ⟨memory, out, steps, diagnostics, log, current, origin⟩ (.ok n.name)
      else
        .ended ⟨memory, out, steps, diagnostics, log, current, origin⟩ (.error .output)

/-- Executes a node. -/
def visit (o : Options) (n : Node) : Machine → Progress
  | ⟨memory, out, steps, diagnostics, log, current, origin⟩ =>
      let step := steps + 1
      match perform o n memory out with
      | ⟨outcome, memory, out, events⟩ =>
          let log := log.addAll events
          match outcome with
          | .answered answer =>
              leave o n answer ⟨memory, out, step, diagnostics, log, current, origin⟩
          | .skipped err =>
              let diagnostics := diagnostics.push ⟨step, n.name, n.operationSpan, err⟩
              leave o n none ⟨memory, out, step, diagnostics, log, current, origin⟩
          | .refused =>
              .ended ⟨memory, out, step, diagnostics, log, current, origin⟩ (.error .output)

/-- The step limit, if it is reached. -/
def exhausted? (o : Options) (steps : Nat) : Option Nat :=
  o.maxSteps.filter fun limit => decide (limit ≤ steps)

/-- One step of a run. -/
def step (g : Graph) (o : Options) (m : Machine) : Progress :=
  match exhausted? o m.steps with
  | some limit => .ended m (.error (.stepLimit limit m.current))
  | none =>
      match g.get? m.current with
      | none =>
          if m.current = Node.endName then
            .ended m (.ok Node.endName)
          else
            .ended m (.error (.nodeNotFound m.current m.origin))
      | some n =>
          if n.isCrowded then
            .ended m (.error (.tooManyEdges n.name n.edges.length))
          else
            m.visit o n

/-- At most so many steps of a run. -/
def advance (g : Graph) (o : Options) : Nat → Machine → Progress
  | 0, m => .running m
  | fuel + 1, m =>
      match m.step g o with
      | .running next => advance g o fuel next
      | .ended final result => .ended final result

end Machine
end Run
end GraphMachine
