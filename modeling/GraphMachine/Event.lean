import GraphMachine.Run.Basic
import GraphMachine.Text.Quoted

/-!
# Log events

What reading and running a program leave in the log.  An event has a level, a message and fields
in a fixed order.
-/

namespace GraphMachine

/-- How important an event is. -/
inductive Level where
  | trace
  | debug
  | warn
deriving DecidableEq, Repr

namespace Level

def name : Level → String
  | trace => "TRACE"
  | debug => "DEBUG"
  | warn => "WARN"

end Level

/-- Entries of the log. -/
inductive Event where
  /-- A line declares nothing. -/
  | lineIgnored (line : Nat)
  /-- A line starts like a declaration and is none. -/
  | declarationMalformed (line : Nat)
  /-- A list of edges or an operation is not closed. -/
  | partUnclosed (line : Nat) (text : String)
  /-- A declaration has more edges than a run can choose from. -/
  | nodeCrowded (name : String) (line edges : Nat)
  /-- A declaration replaces an earlier one. -/
  | nodeRedefined (name : String) (line previousLine : Nat)
  | programParsed (nodes : Nat)
  /-- An operation is about to be done. -/
  | dispatched (keyword : Keyword)
  | stored (target : Reference) (value : Int64)
  | checked (result : Bool)
  | shifted (delta pointer : Int64)
  | operationSkipped (node : String) (line : Nat) (error : OperationError)
  | stepped (step : Nat) (node : String) (result : Option Bool) (next : Option String)
  | runFinished (steps : Nat) (haltedAt : String)
  | runFailed (steps : Nat) (error : Run.RunError)
deriving DecidableEq, Repr

namespace Event

/-- The level of an event. -/
def level : Event → Level
  | lineIgnored _ => .trace
  | declarationMalformed _ => .warn
  | partUnclosed _ _ => .warn
  | nodeCrowded _ _ _ => .warn
  | nodeRedefined _ _ _ => .debug
  | programParsed _ => .debug
  | dispatched _ => .trace
  | stored _ _ => .debug
  | checked _ => .debug
  | shifted _ _ => .debug
  | operationSkipped _ _ _ => .warn
  | stepped _ _ _ _ => .debug
  | runFinished _ _ => .debug
  | runFailed _ _ => .debug

def message : Event → String
  | lineIgnored _ => "ignoring line"
  | declarationMalformed _ => "ignoring malformed node declaration"
  | partUnclosed _ _ => "ignoring unterminated edge list or operation"
  | nodeCrowded _ _ _ => "node has more than " ++ Decimal.ofNat Node.maxEdges ++ " edges"
  | nodeRedefined _ _ _ => "node redefined"
  | programParsed _ => "program parsed"
  | dispatched _ => "dispatch"
  | stored _ _ => "set"
  | checked _ => "check"
  | shifted _ _ => "shift"
  | operationSkipped _ _ _ => "operation skipped"
  | stepped _ _ _ _ => "step"
  | runFinished _ _ => "run finished"
  | runFailed _ _ => "run failed"

def referenceText : Reference → String
  | .current => "Current"
  | .relative offset => "Relative(" ++ Decimal.ofWord offset ++ ")"
  | .named name => "Named(" ++ Text.quoted name ++ ")"

/-- An optional value in the log. -/
def optionText {α : Type} (form : α → String) : Option α → String
  | none => "None"
  | some a => "Some(" ++ form a ++ ")"

/-- The fields of an event that are kept.  About a malformed declaration a log may also say what the
grammar of declarations expects in its line; of this only the number of the line is kept. -/
def fields : Event → List (String × String)
  | lineIgnored line => [("line", Decimal.ofNat line)]
  | declarationMalformed line => [("line", Decimal.ofNat line)]
  | partUnclosed line text => [("line", Decimal.ofNat line), ("text", text)]
  | nodeCrowded name line edges =>
      [("name", name), ("line", Decimal.ofNat line), ("edges", Decimal.ofNat edges)]
  | nodeRedefined name line previousLine =>
      [("name", name), ("line", Decimal.ofNat line),
        ("previous_line", Decimal.ofNat previousLine)]
  | programParsed nodes => [("nodes", Decimal.ofNat nodes)]
  | dispatched keyword => [("keyword", keyword.name)]
  | stored target value =>
      [("target", referenceText target), ("value", Decimal.ofWord value)]
  | checked result => [("result", Value.boolText result)]
  | shifted delta pointer =>
      [("delta", Decimal.ofWord delta), ("pointer", Decimal.ofWord pointer)]
  | operationSkipped node line error =>
      [("node", node), ("line", Decimal.ofNat line), ("error", error.message)]
  | stepped step node result next =>
      [("step", Decimal.ofNat step), ("node", node),
        ("result", optionText Value.boolText result), ("next", optionText Text.quoted next)]
  | runFinished steps haltedAt =>
      [("steps", Decimal.ofNat steps), ("halted_at", haltedAt)]
  | runFailed steps error => [("steps", Decimal.ofNat steps), ("err", error.message)]

end Event

/-- A log, which may be switched off. -/
structure Log where
  enabled : Bool
  events : Array Event

namespace Log

def off : Log :=
  ⟨false, #[]⟩

def on : Log :=
  ⟨true, #[]⟩

def add (log : Log) (e : Event) : Log :=
  if log.enabled then { log with events := log.events.push e } else log

def addAll (log : Log) (es : List Event) : Log :=
  es.foldl add log

end Log
end GraphMachine
