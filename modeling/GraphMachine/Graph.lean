import Std.Data.ExtTreeMap
import GraphMachine.Text.Span

/-!
# Program graphs

A program is a graph of named nodes.  A node may carry the text of an operation and has the names
of its successors.  Nodes are kept in a table under their names, beside the list of the names in the
order in which they were first declared.  A later declaration of a name replaces the earlier one in
its place.
-/

namespace GraphMachine

/-- A node of a program. -/
structure Node where
  name : String
  /-- Names of the successors. -/
  edges : List String
  /-- Text of the operation. -/
  operation : Option String
  /-- Number of the line that declares the node, from one on. -/
  line : Nat
  /-- The declaration in the source. -/
  span : Span
  /-- The operation in the source. -/
  operationSpan : Option Span
deriving DecidableEq, Repr

namespace Node

/-- The name of the node at which every run starts. -/
def startName : String :=
  "start"

/-- The name of the node at which every run that gets there ends. -/
def endName : String :=
  "end"

/-- How many successors a node may have. -/
def maxEdges : Nat :=
  2

/-- A node that was declared in no source. -/
def plain (name : String) (edges : List String) (operation : Option String) : Node :=
  ⟨name, edges, operation, 0, .zero, none⟩

/-- Whether runs end after this node whatever its edges are. -/
def isTerminal (n : Node) : Bool :=
  n.name == endName

/-- Whether a run must not go through this node because it has too many edges. -/
def isCrowded (n : Node) : Bool :=
  !n.isTerminal && decide (maxEdges < n.edges.length)

/-- The successor to go to.  Of two edges the first is taken after the answer true and the second
otherwise. -/
def next (n : Node) (answer : Option Bool) : Option String :=
  if n.isTerminal then
    none
  else
    match n.edges with
    | [] => none
    | [only] => some only
    | first :: second :: _ => some (if answer = some true then first else second)

def listing (n : Node) : String :=
  n.name ++ " | edges: [" ++ ", ".intercalate n.edges ++ "]" ++
    (match n.operation with
    | some text => " | operation: " ++ text
    | none => "") ++ "\n"

end Node

/-- Nodes under their names, and the names in the order in which they came. -/
structure Registry where
  table : Std.ExtTreeMap String Node
  order : Array String

namespace Registry

def empty : Registry :=
  ⟨∅, #[]⟩

def get? (r : Registry) (name : String) : Option Node :=
  r.table[name]?

/-- Puts a node under its name, which joins the others unless a node had it before.  Gives that
node. -/
def insert (r : Registry) (n : Node) : Option Node × Registry :=
  let previous := r.get? n.name
  let table := r.table.insert n.name n
  (previous, ⟨table, if previous.isNone then r.order.push n.name else r.order⟩)

def insertAll (r : Registry) (ns : List Node) : Registry :=
  ns.foldl (fun r n => (r.insert n).2) r

def ofList (ns : List Node) : Registry :=
  empty.insertAll ns

def size (r : Registry) : Nat :=
  r.table.size

/-- The nodes in the order of the names.  A name without a node would be passed over. -/
def nodes (r : Registry) : List Node :=
  r.order.toList.filterMap r.get?

theorem insertAll_append
    (r : Registry)
    (ns ms : List Node) :
    r.insertAll (ns ++ ms) = (r.insertAll ns).insertAll ms :=
  List.foldl_append

end Registry

/-- A graph is a registry that was empty before nodes were inserted. -/
structure Graph where
  registry : Registry
  made : ∃ ns, registry = .ofList ns

namespace Graph

def empty : Graph :=
  ⟨.empty, [], rfl⟩

/-- Adds nodes one after the other. -/
def insertAll (g : Graph) (ns : List Node) : Graph where
  registry := g.registry.insertAll ns
  made := by
    obtain ⟨ms, hmade⟩ := g.made
    exact ⟨ms ++ ns, by rw [hmade, Registry.ofList, Registry.ofList, Registry.insertAll_append]⟩

/-- Adds a node, and gives the one that it replaces. -/
def insert (g : Graph) (n : Node) : Option Node × Graph :=
  let inserted := g.registry.insert n
  (inserted.1, ⟨inserted.2, (g.insertAll [n]).made⟩)

/-- The graph of a list of declarations. -/
def ofList (ns : List Node) : Graph :=
  empty.insertAll ns

def get? (g : Graph) (name : String) : Option Node :=
  g.registry.get? name

def size (g : Graph) : Nat :=
  g.registry.size

/-- The nodes in the order of the first declarations of their names. -/
def nodes (g : Graph) : List Node :=
  g.registry.nodes

def names (g : Graph) : List String :=
  g.nodes.map Node.name

/-- All nodes, one in a line. -/
def listing (g : Graph) : String :=
  String.join (g.nodes.map Node.listing)

end Graph
end GraphMachine
