import GraphMachine.Program.Log
import GraphMachine.Run.Machine

/-!
# Sessions

A session runs one program as often as asked, always with fresh memory and always into the same
output.  After a run that failed it keeps the operations that were skipped until they are taken.
-/

namespace GraphMachine
namespace Run

/-- A program that can be run, and what its last run left. -/
structure Session where
  graph : Graph
  options : Options
  memory : Memory
  /-- Skipped operations of a run that failed. -/
  recovered : Array Diagnostic
  out : Sink
  log : Log

namespace Options

/-- How many steps a run can take until it is over: one more than its limit.  A run without a limit
is followed for as long as a word can count its steps. -/
def horizon (o : Options) : Nat :=
  o.maxSteps.getD Decimal.countBound + 1

end Options

namespace Session

def new (graph : Graph) (options : Options) (out : Sink) (log : Log) : Session :=
  ⟨graph, options, .empty, #[], out, log⟩

/-- What a run that is over gives, and the session afterwards. -/
def conclude (graph : Graph) (options : Options) (result : Except RunError String) :
    Machine → Except RunError Report × Session
  | ⟨memory, out, steps, diagnostics, log, _, _⟩ =>
      match result with
      | .ok haltedAt =>
          (.ok ⟨steps, haltedAt, memory.pointer, diagnostics⟩,
            ⟨graph, options, memory, #[], out, log.add (.runFinished steps haltedAt)⟩)
      | .error err =>
          (.error err,
            ⟨graph, options, memory, diagnostics, out, log.add (.runFailed steps err)⟩)

/-- Runs the program for at most so many steps.  Gives nothing if the run is not over by then. -/
def runWithin (fuel : Nat) : Session → Option (Except RunError Report × Session)
  | ⟨graph, options, _, _, out, log⟩ =>
      match (Machine.initial out log).advance graph options fuel with
      | .running _ => none
      | .ended m result => some (conclude graph options result m)

def run (s : Session) : Option (Except RunError Report × Session) :=
  s.runWithin s.options.horizon

/-- Takes the skipped operations of a run that failed. -/
def takeDiagnostics (s : Session) : Array Diagnostic × Session :=
  (s.recovered, { s with recovered := #[] })

end Session
end Run
end GraphMachine
