import GraphMachine.Run.Basic
import GraphMachine.Sink

/-!
# Notices

What the user is told about a run: a warning for every operation that was skipped, and an error if
the run failed.  A notice may point at a part of the source and may give advice.
-/

namespace GraphMachine

/-- How serious a notice is. -/
inductive Severity where
  | error
  | warning
deriving DecidableEq, Repr

namespace Severity

/-- The word in which a headline starts. -/
def word : Severity → String
  | error => "Error"
  | warning => "Warning"

/-- The code of the colour of that word. -/
def colorCode : Severity → String
  | error => "31"
  | warning => "33"

end Severity

/-- A message about a program. -/
structure Notice where
  severity : Severity
  code : String
  message : String
  /-- The part of the source that it is about. -/
  span : Option Span
  /-- What is written beneath that part. -/
  label : String
  help : Option String
deriving DecidableEq, Repr

namespace Notice

/-- The code of a skipped operation. -/
def diagnosticCode : OperationError → String
  | .eval .divisionByZero => "E001"
  | .eval .moduloByZero => "E001"
  | .eval (.namedMemoryDisabled _) => "E002"
  | .eval _ => "E003"
  | .unsupported _ => "E004"
  | .malformed _ => "E005"
  | .invalidArgument _ => "E005"
  | .output => "E006"

def diagnosticHelp : OperationError → Option String
  | .eval (.namedMemoryDisabled _) =>
      some "run with named memory enabled (`--named`) to use names"
  | .unsupported _ =>
      some ("supported operations: " ++ ", ".intercalate (Keyword.all.map Keyword.name))
  | _ => none

/-- The warning about a skipped operation. -/
def ofDiagnostic (d : Run.Diagnostic) : Notice where
  severity := .warning
  code := diagnosticCode d.error
  message := "operation in `" ++ d.node ++ "` skipped"
  span := d.span
  label := d.error.message
  help := diagnosticHelp d.error

/-- The declaration of a node. -/
def declarationSpan (g : Graph) (name : String) : Option Span :=
  (g.get? name).map Node.span

/-- The error of a run that failed, unless it was the output that failed. -/
def ofRunError (g : Graph) (e : Run.RunError) : Option Notice :=
  match e with
  | .nodeNotFound missing (some origin) =>
      some ⟨.error, "R001", e.message, declarationSpan g origin,
        "edge to `" ++ missing ++ "` leads nowhere",
        some ("declare the node with `<" ++ missing ++ ">`")⟩
  | .nodeNotFound _ none =>
      some ⟨.error, "R001", e.message, none, "",
        some ("every program starts at a node named `" ++ Node.startName ++ "`")⟩
  | .tooManyEdges node _ =>
      some ⟨.error, "R002", e.message, declarationSpan g node, "declared here",
        some "split the node so that each has at most two edges"⟩
  | .stepLimit _ node =>
      some ⟨.error, "R003", e.message, declarationSpan g node,
        "the run was stopped before this node",
        some "the program may loop forever; raise or disable the step limit"⟩
  | .output => none

end Notice
end GraphMachine
