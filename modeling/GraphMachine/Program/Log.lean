import GraphMachine.Event
import GraphMachine.Program.Reading

/-!
# Reading programs into graphs

The lines of a source are entered into a graph and into the log one after the other.  Every line
that declares nothing is logged.  A declaration is logged if a part of it is not closed, if it has
too many edges, and if it replaces an earlier one.
-/

namespace GraphMachine
namespace Program

/-- Events of a declaration on its own. -/
def declarationEvents (n : Node) (unclosed : Option String) : List Event :=
  (match unclosed with
    | some text => [.partUnclosed n.line text]
    | none => []) ++
  (if Node.maxEdges < n.edges.length then
    [.nodeCrowded n.name n.line n.edges.length]
  else
    [])

/-- The event of a declaration that replaces another one. -/
def redefinition (n : Node) : Option Node → List Event
  | none => []
  | some previous => [.nodeRedefined previous.name n.line previous.line]

/-- A graph and a log that lines are entered into. -/
structure Loading where
  graph : Graph
  events : Array Event

namespace Loading

/-- Enters what a line turned out to be. -/
def enter (l : Loading) : Reading → Loading
  | .malformed number => { l with events := l.events.push (.declarationMalformed number) }
  | .ignored number => { l with events := l.events.push (.lineIgnored number) }
  | .declared n unclosed =>
      let (replaced, graph) := l.graph.insert n
      ⟨graph, l.events ++ declarationEvents n unclosed ++ redefinition n replaced⟩

/-- The end of the source. -/
def close (l : Loading) : Loading :=
  { l with events := l.events.push (.programParsed l.graph.size) }

theorem graph_foldl_enter
    (l : Loading)
    (rs : List Reading) :
    (rs.foldl enter l).graph = l.graph.insertAll (rs.filterMap Reading.node?) := by
  induction rs generalizing l with
  | nil => rfl
  | cons r rs ih =>
      rw [List.foldl_cons, ih]
      cases r <;> rfl

end Loading

/-- Reads a source. -/
def load (source : String) : Loading :=
  ((readings source).foldl Loading.enter ⟨.empty, #[]⟩).close

def parse (source : String) : Graph :=
  (load source).graph

def log (source : String) : List Event :=
  (load source).events.toList

/-- The nodes that a source declares are inserted line by line. -/
theorem parse_eq
    (source : String) :
    parse source = .ofList (declarations source) :=
  Loading.graph_foldl_enter ⟨.empty, #[]⟩ (readings source)

end Program
end GraphMachine
