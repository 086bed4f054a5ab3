import GraphMachine.Command.Arguments
import GraphMachine.Command.Execution
import GraphMachine.EvalError
import GraphMachine.Evaluation
import GraphMachine.Event
import GraphMachine.Expr.Basic
import GraphMachine.Expr.Builder
import GraphMachine.Expr.Eval
import GraphMachine.Expr.Pairs
import GraphMachine.Graph
import GraphMachine.Main
import GraphMachine.Memory
import GraphMachine.Notice.Basic
import GraphMachine.Notice.Layout
import GraphMachine.Notice.Place
import GraphMachine.Operation.Basic
import GraphMachine.Operation.Dispatch
import GraphMachine.Operation.Parser
import GraphMachine.Peg
import GraphMachine.Program.Declaration
import GraphMachine.Program.Log
import GraphMachine.Program.Reading
import GraphMachine.Reference.Basic
import GraphMachine.Reference.Slot
import GraphMachine.Reference.Target
import GraphMachine.Reference.Template
import GraphMachine.Run.Basic
import GraphMachine.Run.Machine
import GraphMachine.Run.Session
import GraphMachine.Sink
import GraphMachine.Text.Cut
import GraphMachine.Text.Decimal
import GraphMachine.Text.Hidden
import GraphMachine.Text.Lines
import GraphMachine.Text.Quoted
import GraphMachine.Text.Ranges
import GraphMachine.Text.Similarity
import GraphMachine.Text.Span
import GraphMachine.Text.Whitespace
import GraphMachine.Text.Width
import GraphMachine.Proofs.Expr.Acceptance
import GraphMachine.Proofs.Expr.Arithmetic
import GraphMachine.Proofs.Expr.Boundaries
import GraphMachine.Proofs.Expr.Building
import GraphMachine.Proofs.Expr.Cutting
import GraphMachine.Proofs.Expr.DepthLimit
import GraphMachine.Proofs.Expr.Descent
import GraphMachine.Proofs.Expr.Draft
import GraphMachine.Proofs.Expr.Faults
import GraphMachine.Proofs.Expr.Grammar
import GraphMachine.Proofs.Expr.LeafFaults
import GraphMachine.Proofs.Expr.Lexing
import GraphMachine.Proofs.Expr.Limits
import GraphMachine.Proofs.Expr.Reading
import GraphMachine.Proofs.Expr.SyntaxErrors
import GraphMachine.Proofs.Expr.Token
import GraphMachine.Proofs.Expr.TokenRules
import GraphMachine.Proofs.Graph.Insertion
import GraphMachine.Proofs.Graph.Registry
import GraphMachine.Proofs.Memory.History
import GraphMachine.Proofs.Memory.Snapshot
import GraphMachine.Proofs.Notice.Location
import GraphMachine.Proofs.Notice.Pointing
import GraphMachine.Proofs.Operation.Calls
import GraphMachine.Proofs.Operation.CanonicalText
import GraphMachine.Proofs.Operation.Effect
import GraphMachine.Proofs.Operation.Frame
import GraphMachine.Proofs.Operation.Moves
import GraphMachine.Proofs.Operation.Pairs
import GraphMachine.Proofs.Operation.Reads
import GraphMachine.Proofs.Operation.Relocation
import GraphMachine.Proofs.Operation.ShortForms
import GraphMachine.Proofs.Outcome
import GraphMachine.Proofs.Peg
import GraphMachine.Proofs.Program.Composition
import GraphMachine.Proofs.Program.Entries
import GraphMachine.Proofs.Program.LineReading
import GraphMachine.Proofs.Program.Logging
import GraphMachine.Proofs.Program.OneLine
import GraphMachine.Proofs.Program.Places
import GraphMachine.Proofs.Program.Spans
import GraphMachine.Proofs.Program.Spelling
import GraphMachine.Proofs.Program.Writing
import GraphMachine.Proofs.Reference.Braces
import GraphMachine.Proofs.Reference.Cells
import GraphMachine.Proofs.Reference.Destinations
import GraphMachine.Proofs.Reference.Gluing
import GraphMachine.Proofs.Reference.Layout
import GraphMachine.Proofs.Reference.Phrase
import GraphMachine.Proofs.Reference.Replacement
import GraphMachine.Proofs.Reference.SlotRules
import GraphMachine.Proofs.Reference.Spelling
import GraphMachine.Proofs.Reference.Substitution
import GraphMachine.Proofs.Run.Acyclic
import GraphMachine.Proofs.Run.Debugging
import GraphMachine.Proofs.Run.DeclarationOrder
import GraphMachine.Proofs.Run.Diagnostics
import GraphMachine.Proofs.Run.Endings
import GraphMachine.Proofs.Run.Execution
import GraphMachine.Proofs.Run.Independence
import GraphMachine.Proofs.Run.Logging
import GraphMachine.Proofs.Run.NamedMode
import GraphMachine.Proofs.Run.OutputLimit
import GraphMachine.Proofs.Run.Pointer
import GraphMachine.Proofs.Run.StepLimit
import GraphMachine.Proofs.Run.Steps
import GraphMachine.Proofs.Run.TapeMode
import GraphMachine.Proofs.Run.Unreadable
import GraphMachine.Proofs.Run.Visits
import GraphMachine.Proofs.Run.WholeLines
import GraphMachine.Proofs.Sink
import GraphMachine.Proofs.Text.Blanks
import GraphMachine.Proofs.Text.ByteOrder
import GraphMachine.Proofs.Text.Cuts
import GraphMachine.Proofs.Text.Lines
import GraphMachine.Proofs.Text.Numerals
import GraphMachine.Proofs.Text.Splitting
import GraphMachine.Proofs.Text.Words
