import GraphMachine.Program.Declaration
import GraphMachine.Text.Lines

/-!
# Reading lines

A source is read line by line.  Lines that declare no node are passed over, so every text is a
program.
-/

namespace GraphMachine

/-- What a line turned out to be. -/
inductive Reading where
  /-- A declaration, and left over text that looks like a part that is not closed. -/
  | declared (node : Node) (unclosed : Option String)
  /-- A line that starts like a declaration and is none. -/
  | malformed (number : Nat)
  /-- Any other line. -/
  | ignored (number : Nat)
deriving DecidableEq, Repr

namespace Reading

/-- Reads a line, without its end, that starts at an offset in the source. -/
def ofLine (number offset : Nat) (line : List Char) : Reading :=
  match Declaration.parse? line with
  | some d => .declared (d.node number offset line) (d.unclosed?.map String.ofList)
  | none =>
      if (Text.trimStart line).head? = some '<' then .malformed number else .ignored number

/-- The node that a line declares. -/
def node? : Reading → Option Node
  | declared node _ => some node
  | _ => none

end Reading

namespace Program

def readFrom (number offset : Nat) : List (List Char) → List Reading
  | [] => []
  | raw :: rest =>
      Reading.ofLine number offset (Text.chomp raw) ::
        readFrom (number + 1) (offset + Text.byteLength raw) rest

def readings (source : String) : List Reading :=
  readFrom 1 0 (Text.lines source.toList)

def declarations (source : String) : List Node :=
  (readings source).filterMap Reading.node?

end Program
end GraphMachine
