import GraphMachine.Proofs.Program.Composition
import GraphMachine.Proofs.Program.Spelling

/-!
# Writing programs

A program is written line by line, in any spacing of the declarations, with noise between them and
with either line end.  Reading it gives back what was written: one node for each name, which says
what the last declaration of the name says.
-/

namespace GraphMachine

open Text

namespace Entry

/-- The last declaration of a name. -/
def last? (es : List Entry) (name : String) : Option Entry :=
  es.reverse.find? fun e => e.name == name

end Entry

/-- Each node of a graph says what the last declaration of its name says. -/
theorem Graph.last?_of_mem_ofList
    {ns : List Node}
    {n : Node}
    (hn : n ∈ (ofList ns).nodes) :
    Entry.last? (ns.map Node.entry) n.name = some n.entry := by
  have hget := mem_nodes_iff.mp hn
  rw [get?_ofList] at hget
  have hfind : (ns.map Node.entry).reverse.find? (fun e => e.name == n.name) =
      (ns.reverse.find? fun m => m.name == n.name).map Node.entry := by
    rw [← List.map_reverse, List.find?_map]
    rfl
  rw [Entry.last?, hfind, hget]
  rfl

namespace Text

section LineEnds

/-- How a line ends. -/
inductive IsLineEnd : List Char → Prop
  | lineFeed : IsLineEnd ['\n']
  | both : IsLineEnd ['\r', '\n']

theorem IsLineEnd.exists_eq
    {stop : List Char}
    (h : IsLineEnd stop) :
    ∃ before, '\n' ∉ before ∧ stop = before ++ ['\n'] := by
  cases h with
  | lineFeed => exact ⟨[], by decide, rfl⟩
  | both => exact ⟨['\r'], by decide, rfl⟩

theorem IsLineEnd.mem
    {stop : List Char}
    (h : IsLineEnd stop) :
    ∀ c ∈ stop, c = '\n' ∨ c = '\r' := by
  cases h with
  | lineFeed => simp
  | both => simp

theorem lines_eq_singleton
    {u : List Char}
    (hu : '\n' ∉ u)
    (hne : u ≠ []) :
    lines u = [u] := by
  induction u with
  | nil =>
      exact absurd rfl hne
  | cons c u ih =>
      rw [List.mem_cons, not_or] at hu
      have hc : c ≠ '\n' := Ne.symm hu.1
      cases u with
      | nil => simp [lines, hc]
      | cons d u => rw [lines, if_neg hc, ih hu.2 (by simp)]

theorem lines_concat
    {u : List Char}
    (hu : '\n' ∉ u) :
    lines (u ++ ['\n']) = [u ++ ['\n']] := by
  induction u with
  | nil =>
      simp [lines]
  | cons c u ih =>
      rw [List.mem_cons, not_or] at hu
      have hc : c ≠ '\n' := Ne.symm hu.1
      simp [lines, hc, ih hu.2]

/-- A line and its end are cut off from the text after them. -/
theorem lines_append_lineEnd
    {u stop : List Char}
    (hu : '\n' ∉ u)
    (hstop : IsLineEnd stop)
    (rest : List Char) :
    lines (u ++ (stop ++ rest)) = (u ++ stop) :: lines rest := by
  obtain ⟨before, hbefore, rfl⟩ := hstop.exists_eq
  have hplain : '\n' ∉ u ++ before := by simp [hu, hbefore]
  have hwhole : WholeLines (u ++ before ++ ['\n']) := .inr (by simp)
  have hlines := lines_append hwhole rest
  rw [lines_concat hplain] at hlines
  simpa using hlines

end LineEnds

end Text

namespace Program

/-- A line that declares a node, or nothing. -/
inductive WritesLine : Option Entry → List Char → Prop
  | noise
      {line : List Char}
      (h : Declaration.Noise line) :
      WritesLine none line
  | declaration
      {e : Entry}
      {line : List Char}
      (h : Declaration.Writes e line) :
      WritesLine (some e) line

/-- Lines with line ends between them, and what they declare one after the other. -/
inductive Writes : List Entry → List Char → Prop
  | empty :
      Writes [] []
  | last
      {e : Option Entry}
      {line : List Char}
      (hline : WritesLine e line) :
      Writes e.toList line
  | more
      {e : Option Entry}
      {line stop rest : List Char}
      {es : List Entry}
      (hline : WritesLine e line)
      (hstop : IsLineEnd stop)
      (hrest : Writes es rest) :
      Writes (e.toList ++ es) (line ++ (stop ++ rest))

section Reading

variable {e : Option Entry}
variable {es : List Entry}
variable {line : List Char}

theorem WritesLine.lineFeed_notMem
    (h : WritesLine e line) :
    '\n' ∉ line := by
  cases h with
  | noise h => exact h.lineFeed_notMem
  | declaration h => exact h.lineFeed_notMem

/-- A line is read back, with or without its end. -/
theorem WritesLine.map_entry_parse?
    (h : WritesLine e line)
    {stop : List Char}
    (hstop : ∀ c ∈ stop, c = '\n' ∨ c = '\r') :
    (Declaration.parse? (chomp (line ++ stop))).map Declaration.entry = e := by
  cases h with
  | noise h =>
      rw [Declaration.chomp_append line hstop, h.parse?_chomp]
      rfl
  | declaration h =>
      obtain ⟨d, hparse, rfl⟩ := h.exists_parse?
      rw [h.closed.chomp_append hstop, hparse]
      rfl

theorem map_entry_nodesFrom_cons
    (number offset : Nat)
    (raw : List Char)
    (ls : List (List Char)) :
    (nodesFrom number offset (raw :: ls)).map Node.entry =
      ((Declaration.parse? (chomp raw)).map Declaration.entry).toList ++
        (nodesFrom (number + 1) (offset + byteLength raw) ls).map Node.entry := by
  rw [nodesFrom_cons, List.map_append]
  cases Declaration.parse? (chomp raw) with
  | none => rfl
  | some d => simp [Declaration.entry_node]

/-- All declarations of a source are read back, wherever it stands. -/
theorem Writes.map_entry_nodesFrom
    {text : List Char}
    (h : Writes es text)
    (number offset : Nat) :
    (nodesFrom number offset (lines text)).map Node.entry = es := by
  induction h generalizing number offset with
  | empty =>
      rfl
  | @last e line hline =>
      have hread : (Declaration.parse? (chomp (line ++ []))).map Declaration.entry = e :=
        hline.map_entry_parse? (by simp)
      rw [List.append_nil] at hread
      by_cases hempty : line = []
      · subst hempty
        rw [← hread]
        rfl
      · rw [lines_eq_singleton hline.lineFeed_notMem hempty, map_entry_nodesFrom_cons, hread]
        simp [nodesFrom, readFrom]
  | more hline hstop _ ih =>
      rw [lines_append_lineEnd hline.lineFeed_notMem hstop, map_entry_nodesFrom_cons,
        hline.map_entry_parse? hstop.mem, ih]

/-- Programs are read back.  From lines that are written in any spacing and with either line end,
some of which may be noise, come one node for each declared name, in the order of the first
declarations, and each node has the edges and the operation of the last declaration of its name. -/
theorem parse_of_writes
    (es : List Entry)
    (source : String)
    (h : Writes es source.toList) :
    (parse source).names = (es.map Entry.name).eraseDups ∧
      ∀ n ∈ (parse source).nodes, Entry.last? es n.name = some n.entry := by
  have hentries : (declarations source).map Node.entry = es := h.map_entry_nodesFrom 1 0
  have hnames : (declarations source).map Node.name = es.map Entry.name := by
    rw [← hentries, List.map_map]
    rfl
  refine ⟨?_, ?_⟩
  · rw [parse_eq, Graph.names_ofList, hnames]
  · intro n hn
    rw [parse_eq] at hn
    rw [← hentries]
    exact Graph.last?_of_mem_ofList hn

end Reading

/-- A line of noise and three declarations, with both line ends.  The last one has brackets in its
operation and replaces the first one, which has a brace in an edge and an edge without a name. -/
def restated : String :=
  "see <a>\r\n<a>[ \x7bx | ]\n<b> \x7bSET(é)\x7d \r\n\t< a >[b]\x7b]\x7d\x7b \x7d"

/-- The name that is declared twice comes first and has its last declaration. -/
theorem restated_read_back :
    Writes
        [⟨"a", ["\x7bx", ""], none⟩, ⟨"b", [], some "SET(é)"⟩, ⟨"a", ["b"], some "]\x7d\x7b"⟩]
        restated.toList ∧
      (parse restated).names = ["a", "b"] ∧
      ∀ n ∈ (parse restated).nodes,
        n.name = "a" → n.edges = ["b"] ∧ n.operation = some "]\x7d\x7b" := by
  have hempty : Blanks [] := by decide
  have hspace : Blanks [' '] := by decide
  have hbare (w : List Char) : Padded w ([] ++ (w ++ [])) := ⟨[], [], hempty, hempty, rfl⟩
  have hnoise : WritesLine none "see <a>".toList := .noise ⟨by decide, by decide⟩
  have hfirst := Declaration.Writes.line (e := ⟨"a", ["\x7bx", ""], none⟩) hempty
    (by decide) (hbare _) hempty
    (.present (by decide)
      (.more (by decide) ⟨[' '], [' '], hspace, hspace, rfl⟩
        (.last (by decide) ⟨[' '], [], hspace, hempty, rfl⟩)))
    hempty .absent hempty
  have hsecond := Declaration.Writes.line (e := ⟨"b", [], some "SET(é)"⟩) hempty
    (by decide) (hbare _) hspace .absent hempty (.present (by decide) (hbare _)) hspace
  have hthird := Declaration.Writes.line (e := ⟨"a", ["b"], some "]\x7d\x7b"⟩)
    (by decide : Blanks ['\t']) (by decide) ⟨[' '], [' '], hspace, hspace, rfl⟩ hempty
    (.present (by decide) (.last (by decide) (hbare _))) hempty
    (.present (by decide) ⟨[], [' '], hempty, hspace, rfl⟩) hempty
  have hwrites :
      Writes
        [⟨"a", ["\x7bx", ""], none⟩, ⟨"b", [], some "SET(é)"⟩, ⟨"a", ["b"], some "]\x7d\x7b"⟩]
        restated.toList := by
    have hlines :=
      Writes.more hnoise .both
        (.more (.declaration hfirst) .lineFeed
          (.more (.declaration hsecond) .both (.last (.declaration hthird))))
    convert hlines using 1
    · rfl
    · decide
  obtain ⟨hnames, hnodes⟩ := parse_of_writes _ restated hwrites
  refine ⟨hwrites, ?_, ?_⟩
  · rw [hnames]
    decide
  · intro n hn hname
    have hlast := hnodes n hn
    rw [hname] at hlast
    have hentry : n.entry = ⟨"a", ["b"], some "]\x7d\x7b"⟩ := (Option.some.inj hlast).symm
    exact ⟨congrArg Entry.edges hentry, congrArg Entry.operation hentry⟩

end Program
end GraphMachine
