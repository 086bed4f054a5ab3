import GraphMachine.Program.Log
import GraphMachine.Proofs.Graph.Insertion
import GraphMachine.Proofs.Text.Lines

/-!
# Programs in parts

A source that ends with a line feed can be followed by another one.  Each of its lines is read as
before, and each line of the second source is read as on its own, only further on: the spans of a
node move by the bytes of the first source, and its line number by the lines of the first source.

So the graph of both is the graph of the first one with the nodes of the second one inserted.  A
name that both declare keeps the place that it has in the first graph.
-/

namespace GraphMachine

/-- The same node in a longer source, so many bytes and lines further on. -/
def Node.moved (bytes lines : Nat) (n : Node) : Node :=
  { n with
    line := n.line + lines
    span := n.span.shift bytes
    operationSpan := n.operationSpan.map fun span => span.shift bytes }

@[simp] theorem Node.name_moved
    (bytes lines : Nat)
    (n : Node) :
    (n.moved bytes lines).name = n.name := by
  rfl

namespace Text

theorem byteLength_toList
    (s : String) :
    byteLength s.toList = s.utf8ByteSize := by
  have hchars (cs : List Char) : byteLength cs = (String.ofList cs).utf8ByteSize := by
    induction cs with
    | nil => simp
    | cons c cs ih => simp [ih]
  rw [hchars, String.ofList_toList]

end Text

/-- A line that stands further on declares the same node, moved. -/
theorem Declaration.node_moved
    (d : Declaration)
    (number offset bytes lines : Nat)
    (line : List Char) :
    d.node (number + lines) (offset + bytes) line =
      (d.node number offset line).moved bytes lines := by
  cases hoperation : d.operation with
  | none =>
      simp [Declaration.node, Node.moved, Span.shift, hoperation, Nat.add_right_comm]
  | some operation =>
      simp [Declaration.node, Node.moved, Span.shift, hoperation, Nat.add_right_comm]

namespace Program

open Text

def nodesFrom (number offset : Nat) (ls : List (List Char)) : List Node :=
  (readFrom number offset ls).filterMap Reading.node?

theorem nodesFrom_cons
    (number offset : Nat)
    (raw : List Char)
    (ls : List (List Char)) :
    nodesFrom number offset (raw :: ls) =
      ((Declaration.parse? (chomp raw)).map fun d => d.node number offset (chomp raw)).toList ++
        nodesFrom (number + 1) (offset + byteLength raw) ls := by
  cases hparse : Declaration.parse? (chomp raw) with
  | some d =>
      simp [nodesFrom, readFrom, Reading.ofLine, Reading.node?, hparse]
  | none =>
      simp only [nodesFrom, readFrom, Reading.ofLine, hparse]
      split
      · rfl
      · rfl

theorem nodesFrom_append
    (number offset : Nat)
    (us vs : List (List Char)) :
    nodesFrom number offset (us ++ vs) =
      nodesFrom number offset us ++
        nodesFrom (number + us.length) (offset + byteLength us.flatten) vs := by
  induction us generalizing number offset with
  | nil =>
      simp [nodesFrom, readFrom]
  | cons raw us ih =>
      have hnumber : number + 1 + us.length = number + (us.length + 1) := by omega
      simp only [List.cons_append, nodesFrom_cons, ih, List.append_assoc, List.length_cons,
        List.flatten_cons, byteLength_append, Nat.add_assoc, hnumber]

/-- Lines that stand further on declare the same nodes, moved. -/
theorem nodesFrom_moved
    (number offset bytes lines : Nat)
    (ls : List (List Char)) :
    nodesFrom (number + lines) (offset + bytes) ls =
      (nodesFrom number offset ls).map (Node.moved bytes lines) := by
  induction ls generalizing number offset with
  | nil =>
      rfl
  | cons raw ls ih =>
      have hrest := ih (number + 1) (offset + byteLength raw)
      rw [Nat.add_right_comm number, Nat.add_right_comm offset] at hrest
      rw [nodesFrom_cons, nodesFrom_cons, hrest, List.map_append]
      cases Declaration.parse? (chomp raw) with
      | none => rfl
      | some d => simp [d.node_moved]

/-- The declarations of a source after another one. -/
theorem declarations_append
    {s : String}
    (hs : WholeLines s.toList)
    (t : String) :
    declarations (s ++ t) =
      declarations s ++
        (declarations t).map (Node.moved s.utf8ByteSize (s.toList.count '\n')) := by
  have hlines : lines (s ++ t).toList = lines s.toList ++ lines t.toList := by
    rw [String.toList_append, lines_append hs]
  have hmoved := nodesFrom_moved 1 0 s.utf8ByteSize (s.toList.count '\n') (lines t.toList)
  calc
    declarations (s ++ t) = nodesFrom 1 0 (lines s.toList ++ lines t.toList) := by
      rw [← hlines]
      rfl
    _ = nodesFrom 1 0 (lines s.toList) ++
          nodesFrom (1 + s.toList.count '\n') (0 + s.utf8ByteSize) (lines t.toList) := by
      rw [nodesFrom_append, length_lines hs, flatten_lines, byteLength_toList]
    _ = declarations s ++
          (declarations t).map (Node.moved s.utf8ByteSize (s.toList.count '\n')) := by
      rw [hmoved]
      rfl

/-- Reading a program is compositional.  After whole lines a second source adds to the graph the
nodes that it declares on its own, in their order, with spans moved by the bytes and line numbers
raised by the line feeds of the first source. -/
theorem parse_append
    (s t : String)
    (hs : WholeLines s.toList) :
    parse (s ++ t) =
      (parse s).insertAll
        ((parse t).nodes.map (Node.moved s.utf8ByteSize (s.toList.count '\n'))) := by
  have hnodes :=
    Graph.nodes_ofList_map (Node.name_moved s.utf8ByteSize (s.toList.count '\n')) (declarations t)
  calc
    parse (s ++ t) =
        (parse s).insertAll
          ((declarations t).map (Node.moved s.utf8ByteSize (s.toList.count '\n'))) := by
      rw [parse_eq, parse_eq, declarations_append hs]
      exact Graph.insertAll_append _ _ _
    _ = (parse s).insertAll
          ((parse t).nodes.map (Node.moved s.utf8ByteSize (s.toList.count '\n'))) := by
      rw [← Graph.insertAll_nodes_ofList, hnodes, parse_eq t]

/-- Two declarations below a comment with an accent, with both kinds of line ends. -/
def firstHalf : String :=
  "# é\r\n<start>[a]\n<a>\x7bSET(1)\x7d\n"

/-- Three declarations, of which the last replaces the first.  The name stands in the first half,
too. -/
def secondHalf : String :=
  "<a>[b]\n<b>\x7bCHECK\x7d\n <a>[end]\x7b SET(2)\x7d"

/-- The name that is declared three times keeps its first place and has its last declaration, on
line six. -/
theorem firstHalf_append_secondHalf :
    WholeLines firstHalf.toList ∧
      (parse (firstHalf ++ secondHalf)).nodes =
        [⟨"start", ["a"], none, 2, ⟨6, 16⟩, none⟩,
          ⟨"a", ["end"], some "SET(2)", 6, ⟨48, 65⟩, some ⟨58, 64⟩⟩,
          ⟨"b", [], some "CHECK", 5, ⟨36, 46⟩, some ⟨40, 45⟩⟩] := by
  have hwhole : WholeLines firstHalf.toList := by decide
  refine ⟨hwhole, ?_⟩
  rw [parse_append firstHalf secondHalf hwhole]
  decide +kernel

end Program
end GraphMachine
