import GraphMachine.Proofs.Program.Composition
import GraphMachine.Proofs.Program.LineReading
import GraphMachine.Proofs.Program.Places

/-!
# Faithful spans

A span counts bytes, and a source may have characters of several bytes anywhere.  A text that stands
in a source after another one is found again by the bytes of both: the span starts and stops between
two characters, and it covers the text and nothing else.

The spans of a node cover its declaration and, inside it, its operation.  Every line has at most one
declaration and is read after the lines before it, so no two declarations share a byte.
-/

namespace GraphMachine

/-- A span lies in a text, and no character of the text is cut by its ends. -/
structure Span.Fits (s : Span) (text : String) : Prop where
  start_le : s.start ≤ s.stop
  stop_le : s.stop ≤ text.utf8ByteSize
  start_valid : (String.Pos.Raw.mk s.start).IsValid text
  stop_valid : (String.Pos.Raw.mk s.stop).IsValid text

/-- A span fits in a text and covers nothing but the given part of it. -/
structure Span.Covers (s : Span) (text : String) (part : List Char) : Prop where
  fits : s.Fits text
  slice_eq : Text.slice s text.toList = part

/-- A span lies inside another one. -/
structure Span.Within (s t : Span) : Prop where
  start_le : t.start ≤ s.start
  stop_le : s.stop ≤ t.stop

/-- Two spans have no byte in common. -/
def Span.Disjoint (s t : Span) : Prop :=
  s.stop ≤ t.start ∨ t.stop ≤ s.start

/-- A node whose line and spans say where its declaration and its operation stand in a source.  It
has a span for its operation exactly if it has an operation. -/
structure Node.Faithful (source : String) (n : Node) : Prop where
  span_fits : n.span.Fits source
  starts : (Text.slice n.span source.toList).head? = some '<'
  plain : '\n' ∉ Text.slice n.span source.toList
  ends : ∀ c ∈ (Text.slice n.span source.toList).getLast?, Text.isWhite c = false
  line_eq : n.line = 1 + (Text.takeBytes n.span.start source.toList).count '\n'
  operation_eq :
    n.operation =
      n.operationSpan.map fun span => String.ofList (Text.slice span source.toList)
  operation_fits : ∀ span ∈ n.operationSpan, span.Fits source ∧ span.Within n.span

namespace Text

section Bytes

variable (u v w : List Char)

theorem takeBytes_append :
    takeBytes (byteLength u) (u ++ v) = u := by
  induction u with
  | nil =>
      cases v with
      | nil => rfl
      | cons c v => rfl
  | cons c u ih =>
      have hsize := c.utf8Size_pos
      have hne : c.utf8Size + byteLength u ≠ 0 := by omega
      simp only [List.cons_append, byteLength_cons, takeBytes, if_neg hne, Nat.add_sub_cancel_left,
        ih]

theorem dropBytes_append :
    dropBytes (byteLength u) (u ++ v) = v := by
  induction u with
  | nil =>
      cases v with
      | nil => rfl
      | cons c v => rfl
  | cons c u ih =>
      have hsize := c.utf8Size_pos
      have hne : c.utf8Size + byteLength u ≠ 0 := by omega
      simp only [List.cons_append, byteLength_cons, dropBytes, if_neg hne, Nat.add_sub_cancel_left,
        ih]

/-- A text is what its bytes cover. -/
theorem slice_append :
    slice ⟨byteLength u, byteLength (u ++ v)⟩ (u ++ (v ++ w)) = v := by
  simp only [slice, dropBytes_append, byteLength_append, Nat.add_sub_cancel_left, takeBytes_append]

end Bytes

theorem byteLength_le_of_isPrefix
    {u v : List Char}
    (h : u <+: v) :
    byteLength u ≤ byteLength v := by
  obtain ⟨w, rfl⟩ := h
  simp

theorem trimEnd_isPrefix
    (cs : List Char) :
    trimEnd cs <+: cs :=
  List.rdropWhile_prefix _ _

theorem chomp_isPrefix
    (cs : List Char) :
    chomp cs <+: cs :=
  List.rdropWhile_prefix _ _

/-- Trimming keeps what ends with another character than white space. -/
theorem isPrefix_trimEnd_append
    {u : List Char}
    (hne : u ≠ [])
    (hlast : ∀ c ∈ u.getLast?, isWhite c = false)
    (v : List Char) :
    u <+: trimEnd (u ++ v) := by
  obtain ⟨u, c, rfl⟩ := List.eq_nil_or_concat u |>.resolve_left hne
  have hc : isWhite c = false := hlast c (by simp)
  rw [List.concat_eq_append, List.append_assoc, List.singleton_append, trimEnd_append_cons u hc]
  exact ⟨trimEnd v, by simp⟩

section Fitting

variable {source : String}
variable {u v w : List Char}

/-- The bytes of the first part of a text end between two characters. -/
theorem isValid_byteLength
    (h : source.toList = u ++ v) :
    (String.Pos.Raw.mk (byteLength u)).IsValid source := by
  rw [String.Pos.Raw.isValid_iff_exists_append]
  refine ⟨String.ofList u, String.ofList v, ?_, ?_⟩
  · rw [← String.ofList_append, ← h, String.ofList_toList]
  · rw [← String.toList_ofList (l := u), byteLength_toList, String.ofList_toList]
    rfl

/-- A part of a text is covered by the bytes up to its ends. -/
theorem covers_of_toList_eq
    (h : source.toList = u ++ (v ++ w)) :
    Span.Covers ⟨byteLength u, byteLength (u ++ v)⟩ source v := by
  have hstop : source.toList = (u ++ v) ++ w := by
    rw [h, List.append_assoc]
  refine ⟨⟨?_, ?_, isValid_byteLength h, isValid_byteLength hstop⟩, ?_⟩
  · exact byteLength_le_of_isPrefix (List.prefix_append u v)
  · rw [← byteLength_toList, hstop]
    exact byteLength_le_of_isPrefix (List.prefix_append (u ++ v) w)
  · rw [h, slice_append]

end Fitting

end Text

namespace Declaration

open Text

theorem ReadsOperation.trimmed
    {text : List Char}
    {operation : Option (List Char)}
    (h : ReadsOperation text operation) :
    ∀ w ∈ operation, Trimmed w := by
  cases h with
  | @braced inside leftover w hleftover hw =>
      obtain ⟨_, _, _, _, _, htrimmed⟩ := hw
      intro w' hw'
      split at hw'
      · cases hw'
      · cases hw'
        exact htrimmed
  | absent h =>
      simp

section Line

variable {line operation : List Char}
variable {d : Declaration}
variable {start : Nat}

theorem trimmed_operation
    (h : parse? line = some d)
    (hoperation : d.operation = some (operation, start)) :
    Trimmed operation := by
  obtain ⟨_, _, body, _, _, htake⟩ := exists_parts_of_parse? h
  have hreads := readsOperation_takeOperation (positionOf line body) body
  rw [htake, hoperation] at hreads
  exact hreads.trimmed operation rfl

/-- The operation of a line stands inside the declaration: its brace comes after the blanks that the
line starts with, and white space at the end of the line comes after it. -/
theorem operation_inside
    (h : parse? line = some d)
    (hoperation : d.operation = some (operation, start)) :
    positionOf line (trimStart line) ≤ start ∧
      start + byteLength operation ≤ byteLength (trimEnd line) := by
  obtain ⟨lead, text, rest, hline, hlead, -, hposition, -⟩ := exists_eq_of_parse? h
  obtain ⟨before, space, rest', hline', -, rfl, hne⟩ := exists_eq_of_operation h hoperation
  constructor
  · have hbrace : before ++ ['\x7b'] <+: line := ⟨space ++ (operation ++ rest'), by simp [hline']⟩
    have hopening : lead <+: before ++ ['\x7b'] := by
      rcases List.prefix_or_prefix_of_prefix ⟨text ++ rest, hline.symm⟩ hbrace with hle | hle
      · exact hle
      · have hblank := hlead '\x7b' (hle.subset (by simp))
        exact absurd hblank (by decide)
    rw [hposition]
    exact byteLength_le_of_isPrefix (hopening.trans ⟨space, by simp⟩)
  · have hlast : ∀ c ∈ ((before ++ '\x7b' :: space) ++ operation).getLast?, isWhite c = false := by
      rw [List.getLast?_append_of_ne_nil _ hne]
      exact (trimmed_operation h hoperation).last
    have hkept := isPrefix_trimEnd_append (by simp) hlast rest'
    rw [List.append_assoc _ operation, ← hline'] at hkept
    rw [← byteLength_append]
    exact byteLength_le_of_isPrefix hkept

variable {source : String}
variable {above below : List Char}

/-- The span of an operation covers it. -/
theorem covers_operation
    (hsource : source.toList = above ++ (line ++ below))
    (h : parse? line = some d)
    (hoperation : d.operation = some (operation, start)) :
    Span.Covers ⟨byteLength above + start, byteLength above + start + byteLength operation⟩ source
      operation := by
  obtain ⟨before, space, rest, hline, -, rfl, -⟩ := exists_eq_of_operation h hoperation
  have hparts :
      source.toList = (above ++ (before ++ '\x7b' :: space)) ++ (operation ++ (rest ++ below)) := by
    rw [hsource, hline]
    simp
  rw [← byteLength_append above, ← byteLength_append _ operation]
  exact covers_of_toList_eq hparts

/-- A line of a source declares a faithful node. -/
theorem faithful_node
    (hsource : source.toList = above ++ (line ++ below))
    (hplain : '\n' ∉ line)
    (h : parse? line = some d) :
    (d.node (above.count '\n' + 1) (byteLength above) line).Faithful source := by
  obtain ⟨lead, text, rest, hline, -, hhead, hstart, hstop⟩ := exists_eq_of_parse? h
  have hparts : source.toList = (above ++ lead) ++ (text ++ (rest ++ below)) := by
    rw [hsource, hline]
    simp
  have hspan : (d.node (above.count '\n' + 1) (byteLength above) line).span =
      ⟨byteLength (above ++ lead), byteLength ((above ++ lead) ++ text)⟩ := by
    simp only [node, hstart, hstop, byteLength_append, Nat.add_assoc]
  obtain ⟨hfits, hslice⟩ := covers_of_toList_eq hparts
  rw [← hspan] at hfits hslice
  have hne : text ≠ [] := by
    rintro rfl
    cases hhead
  constructor
  case span_fits =>
    exact hfits
  case starts =>
    rw [hslice, hhead]
  case plain =>
    rw [hslice]
    intro hmem
    exact hplain (hline ▸ List.mem_append_right lead (List.mem_append_left rest hmem))
  case ends =>
    have hlast := getLast_trimEnd line
    rw [hstop, List.getLast?_append_of_ne_nil _ hne] at hlast
    rwa [hslice]
  case line_eq =>
    have hzero : lead.count '\n' = 0 :=
      List.count_eq_zero.mpr fun hmem => hplain (hline ▸ List.mem_append_left _ hmem)
    rw [hspan, hparts, takeBytes_append, List.count_append, hzero]
    exact Nat.add_comm _ 1
  case operation_eq =>
    cases hoperation : d.operation with
    | none =>
        simp [node, hoperation]
    | some parts =>
        have hcovers := covers_operation hsource h hoperation
        simp [node, hoperation, hcovers.slice_eq]
  case operation_fits =>
    intro span hmem
    obtain ⟨⟨operation, start⟩, hoperation, rfl⟩ := Option.map_eq_some_iff.mp hmem
    have hcovers := covers_operation hsource h hoperation
    obtain ⟨hstart, hstop⟩ := operation_inside h hoperation
    refine ⟨hcovers.fits, Nat.add_le_add_left hstart _, ?_⟩
    simp only [node, Nat.add_assoc]
    exact Nat.add_le_add_left hstop _

end Line

end Declaration

namespace Program

open Text

theorem le_start_of_mem_nodesFrom
    {number offset : Nat}
    {ls : List (List Char)}
    {n : Node}
    (h : n ∈ nodesFrom number offset ls) :
    offset ≤ n.span.start := by
  obtain ⟨us, raw, vs, d, -, -, rfl⟩ := exists_line_of_mem h
  simp only [Declaration.node]
  omega

theorem stop_node_le
    (d : Declaration)
    (number offset : Nat)
    (raw : List Char) :
    (d.node number offset (chomp raw)).span.stop ≤ offset + byteLength raw :=
  Nat.add_le_add_left
    (byteLength_le_of_isPrefix ((trimEnd_isPrefix (chomp raw)).trans (chomp_isPrefix raw))) offset

/-- Lines are read one after the other, so each declaration stops before the next one starts. -/
theorem pairwise_nodesFrom
    (number offset : Nat)
    (ls : List (List Char)) :
    (nodesFrom number offset ls).Pairwise fun n n' => n.span.stop ≤ n'.span.start := by
  induction ls generalizing number offset with
  | nil =>
      exact .nil
  | cons raw ls ih =>
      rw [nodesFrom_cons]
      cases Declaration.parse? (chomp raw) with
      | none =>
          exact ih _ _
      | some d =>
          refine .cons ?_ (ih _ _)
          intro n hn
          exact (stop_node_le d number offset raw).trans (le_start_of_mem_nodesFrom hn)

/-- The nodes of a program are declared at different places. -/
theorem disjoint_of_mem
    {source : String}
    {n n' : Node}
    (hn : n ∈ (parse source).nodes)
    (hn' : n' ∈ (parse source).nodes)
    (hne : n ≠ n') :
    n.span.Disjoint n'.span := by
  have hdeclared (m : Node) (hm : m ∈ (parse source).nodes) : m ∈ declarations source := by
    rw [parse_eq] at hm
    exact Graph.mem_of_get?_ofList (Graph.mem_nodes_iff.mp hm)
  have hordered : (declarations source).Pairwise fun m m' => m.span.Disjoint m'.span :=
    (pairwise_nodesFrom 1 0 (lines source.toList)).imp .inl
  have : Std.Symm fun m m' : Node => m.span.Disjoint m'.span := ⟨fun _ _ h => Or.symm h⟩
  exact hordered.forall (hdeclared n hn) (hdeclared n' hn') hne

/-- Spans are faithful, in every source.  The span of a node covers its declaration, from the angle
bracket to the last character that is not white, the span of its operation covers the operation
inside it, and its line is found by counting line feeds.  No two nodes share a byte. -/
theorem spans_faithful
    (source : String) :
    (∀ n ∈ (parse source).nodes, n.Faithful source) ∧
      (parse source).nodes.Pairwise fun n n' => n.span.Disjoint n'.span := by
  have hnames := (parse source).nodup_names
  refine ⟨?_, ?_⟩
  · intro n hn
    obtain ⟨above, line, below, d, hsource, -, hplain, hparse, rfl⟩ :=
      exists_declaration (Graph.mem_nodes_iff.mp hn)
    exact Declaration.faithful_node hsource hplain hparse
  · exact (List.Nodup.of_map _ hnames).pairwise_of_forall_ne fun n hn n' hn' hne =>
      disjoint_of_mem hn hn' hne

/-- Characters of two and three bytes, and both ends of lines. -/
def accented : String :=
  "# é\r\n \t<start>[end] \x7b\u2003SET(ü) \x7d é\u2003\r\n<end>\n"

def accentedStart : Node where
  name := "start"
  edges := ["end"]
  operation := some "SET(ü)"
  line := 2
  span := ⟨8, 37⟩
  operationSpan := some ⟨25, 32⟩

def accentedEnd : Node where
  name := "end"
  edges := []
  operation := none
  line := 3
  span := ⟨42, 47⟩
  operationSpan := none

theorem accented_spans :
    (parse accented).nodes = [accentedStart, accentedEnd] ∧
      accentedStart.Faithful accented ∧
      accentedEnd.Faithful accented ∧
      accentedStart.span.Disjoint accentedEnd.span := by
  have hnodes : (parse accented).nodes = [accentedStart, accentedEnd] := by
    decide +kernel
  obtain ⟨hfaithful, hdisjoint⟩ := spans_faithful accented
  rw [hnodes] at hfaithful hdisjoint
  exact ⟨hnodes, hfaithful _ (by simp), hfaithful _ (by simp), List.rel_of_pairwise_cons hdisjoint
    (by simp)⟩

end Program

end GraphMachine
