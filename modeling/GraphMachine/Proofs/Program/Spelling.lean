import GraphMachine.Program.Declaration
import GraphMachine.Proofs.Text.Blanks
import GraphMachine.Text.Lines

/-!
# Spellings of declarations

How a declaration is written is said by the relation `Declaration.Writes`, which leaves the spacing
open, and `Declaration.Noise` says which lines declare nothing.

Edges and operations may contain nearly every character, also the brackets of the other part.  The
line is read back nevertheless, because no edge has the closing bracket and no closing brace comes
after the operation.
-/

namespace GraphMachine

open Text

/-- What a declaration says, apart from where it stands. -/
structure Entry where
  name : String
  edges : List String
  operation : Option String
deriving DecidableEq, Repr

def Node.entry (n : Node) : Entry :=
  ⟨n.name, n.edges, n.operation⟩

namespace Declaration

/-- A name of a node: letters, digits and underscores, at least one. -/
structure IsName (w : List Char) : Prop where
  ne_nil : w ≠ []
  isWordChar : ∀ c ∈ w, isWordChar c = true

/-- A name of a successor: trimmed, on one line, and free of the characters that end it. -/
structure IsEdge (w : List Char) : Prop where
  trimmed : Trimmed w
  bar_notMem : '|' ∉ w
  bracket_notMem : ']' ∉ w
  lineFeed_notMem : '\n' ∉ w

/-- The text of an operation: trimmed, on one line and not empty. -/
structure IsOperation (w : List Char) : Prop where
  trimmed : Trimmed w
  ne_nil : w ≠ []
  lineFeed_notMem : '\n' ∉ w

instance (w : List Char) : Decidable (IsName w) :=
  decidable_of_iff (w ≠ [] ∧ w.all Text.isWordChar = true)
    ⟨fun h => ⟨h.1, List.all_eq_true.mp h.2⟩,
      fun h => ⟨h.ne_nil, List.all_eq_true.mpr h.isWordChar⟩⟩

instance (w : List Char) : Decidable (IsEdge w) :=
  decidable_of_iff (Trimmed w ∧ '|' ∉ w ∧ ']' ∉ w ∧ '\n' ∉ w)
    ⟨fun h => ⟨h.1, h.2.1, h.2.2.1, h.2.2.2⟩,
      fun h => ⟨h.trimmed, h.bar_notMem, h.bracket_notMem, h.lineFeed_notMem⟩⟩

instance (w : List Char) : Decidable (IsOperation w) :=
  decidable_of_iff (Trimmed w ∧ w ≠ [] ∧ '\n' ∉ w)
    ⟨fun h => ⟨h.1, h.2.1, h.2.2⟩, fun h => ⟨h.trimmed, h.ne_nil, h.lineFeed_notMem⟩⟩

/-- Edges with bars between them. -/
inductive WritesEdges : List (List Char) → List Char → Prop
  | last
      {w text : List Char}
      (hw : IsEdge w)
      (htext : Padded w text) :
      WritesEdges [w] text
  | more
      {w text rest : List Char}
      {ws : List (List Char)}
      (hw : IsEdge w)
      (htext : Padded w text)
      (hrest : WritesEdges ws rest) :
      WritesEdges (w :: ws) (text ++ '|' :: rest)

/-- A list of edges in brackets, which may be left out.  A single empty edge is not written. -/
inductive WritesList : List (List Char) → List Char → Prop
  | absent : WritesList [] []
  | present
      {ws : List (List Char)}
      {inside : List Char}
      (hws : ws ≠ [[]])
      (hinside : WritesEdges ws inside) :
      WritesList ws ('[' :: (inside ++ [']']))

/-- An operation in braces, which may be left out. -/
inductive WritesOperation : Option (List Char) → List Char → Prop
  | absent : WritesOperation none []
  | present
      {w inside : List Char}
      (hw : IsOperation w)
      (hinside : Padded w inside) :
      WritesOperation (some w) ('\x7b' :: (inside ++ ['\x7d']))

/-- The line of a declaration. -/
inductive Writes (e : Entry) : List Char → Prop
  | line
      {lead named gap list gap' operation trail : List Char}
      (hlead : Blanks lead)
      (hname : IsName e.name.toList)
      (hnamed : Padded e.name.toList named)
      (hgap : Blanks gap)
      (hlist : WritesList (e.edges.map String.toList) list)
      (hgap' : Blanks gap')
      (hoperation : WritesOperation (e.operation.map String.toList) operation)
      (htrail : Blanks trail) :
      Writes e
        (lead ++ '<' :: (named ++ '>' :: (gap ++ (list ++ (gap' ++ (operation ++ trail))))))

/-- A line on which nothing, or another character than an angle bracket, comes after the blanks. -/
structure Noise (line : List Char) : Prop where
  head_ne : line.find? (fun c => !isBlank c) ≠ some '<'
  lineFeed_notMem : '\n' ∉ line

section Parts

theorem isName_iff_isWord
    (w : List Char) :
    IsName w ↔ IsWord Text.isWordChar w := by
  cases w with
  | nil => exact ⟨fun hw => absurd rfl hw.ne_nil, False.elim⟩
  | cons c w =>
      exact ⟨fun hw => List.forall_mem_cons.mp hw.isWordChar,
        fun hw => ⟨List.cons_ne_nil c w, List.forall_mem_cons.mpr hw⟩⟩

/-- The name of a declaration is read back, whatever comes after it. -/
theorem header?_append
    {lead name named : List Char}
    (hlead : Blanks lead)
    (hname : IsName name)
    (hnamed : Padded name named)
    (rest : List Char) :
    header? (lead ++ '<' :: (named ++ '>' :: rest)) = some (name, rest) := by
  obtain ⟨a, b, ha, hb, rfl⟩ := hnamed
  have hopen :
      skipBlanks (lead ++ '<' :: (a ++ (name ++ b) ++ '>' :: rest)) =
        '<' :: (a ++ (name ++ b) ++ '>' :: rest) :=
    skipBlanks_append_cons hlead (by decide) _
  have hskip : skipBlanks (a ++ (name ++ b) ++ '>' :: rest) = name ++ (b ++ '>' :: rest) := by
    cases name with
    | nil =>
        exact absurd rfl hname.ne_nil
    | cons c name =>
        have hc := isBlank_of_isWordChar (hname.isWordChar c (by simp))
        simpa using skipBlanks_append_cons ha hc (name ++ (b ++ '>' :: rest))
  have hstops : Stops (b ++ '>' :: rest) := hb.gaps.stops_append (stops_cons (by decide))
  have hword : word? isWordChar (name ++ (b ++ '>' :: rest)) = some (name, b ++ '>' :: rest) :=
    word?_eq_some_iff.mpr ⟨(isName_iff_isWord name).mp hname, hstops, rfl⟩
  have hclose : skipBlanks (b ++ '>' :: rest) = '>' :: rest :=
    skipBlanks_append_cons hb (by decide) rest
  simp only [header?, hopen, if_true, hskip, hword, hclose]

theorem WritesEdges.notMem
    {ws : List (List Char)}
    {inside : List Char}
    (h : WritesEdges ws inside)
    {c : Char}
    (hblank : isBlank c = false)
    (hbar : c ≠ '|')
    (hedge : ∀ w, IsEdge w → c ∉ w) :
    c ∉ inside := by
  induction h with
  | last hw htext =>
      exact htext.notMem hblank (hedge _ hw)
  | more hw htext _ ih =>
      have hfirst := htext.notMem hblank (hedge _ hw)
      simp [hfirst, hbar, ih]

theorem WritesEdges.map_trim_pieces
    {ws : List (List Char)}
    {inside : List Char}
    (h : WritesEdges ws inside) :
    (pieces '|' inside).map trim = ws := by
  induction h with
  | last hw htext =>
      have hbar := htext.notMem (c := '|') (by decide) hw.bar_notMem
      rw [pieces_eq_singleton hbar, List.map_singleton, htext.trim_eq hw.trimmed]
  | more hw htext _ ih =>
      have hbar := htext.notMem (c := '|') (by decide) hw.bar_notMem
      rw [pieces_append hbar, List.map_cons, ih, htext.trim_eq hw.trimmed]

theorem WritesEdges.edgesOf_eq
    {ws : List (List Char)}
    {inside : List Char}
    (h : WritesEdges ws inside)
    (hws : ws ≠ [[]]) :
    edgesOf inside = ws := by
  unfold edgesOf
  rw [h.map_trim_pieces]
  split
  · exact absurd rfl hws
  · rfl

/-- The edges are read back.  If there are none, the text must not go on like a list of edges. -/
theorem WritesList.takeEdges_eq
    {ws : List (List Char)}
    {gap list rest : List Char}
    (h : WritesList ws list)
    (hgap : Blanks gap)
    (hrest : (skipBlanks rest).head? ≠ some '[') :
    takeEdges (skipBlanks (gap ++ (list ++ rest))) = (ws, skipBlanks rest) := by
  cases h with
  | absent =>
      rw [List.nil_append, skipBlanks_append hgap]
      unfold takeEdges
      cases hbody : skipBlanks rest with
      | nil =>
          rfl
      | cons c opened =>
          rw [hbody] at hrest
          have hc : c ≠ '[' := by simpa using hrest
          simp only [if_neg hc]
  | @present ws inside hws hinside =>
      have hskip :
          skipBlanks (gap ++ ('[' :: (inside ++ [']']) ++ rest)) =
            '[' :: (inside ++ ']' :: rest) := by
        simpa using skipBlanks_append_cons hgap (c := '[') (by decide) (inside ++ ']' :: rest)
      have hbracket : ']' ∉ inside :=
        hinside.notMem (by decide) (by decide) fun _ hw => hw.bracket_notMem
      have hcut := cutFirst_append hbracket rest
      simp only [hskip, takeEdges, if_true, hcut, hinside.edgesOf_eq hws]

theorem WritesOperation.head?_ne
    {op : Option (List Char)}
    {gap operation trail : List Char}
    (h : WritesOperation op operation)
    (hgap : Blanks gap)
    (htrail : Blanks trail) :
    (skipBlanks (gap ++ (operation ++ trail))).head? ≠ some '[' := by
  cases h with
  | absent =>
      rw [List.nil_append, skipBlanks_of_blanks (hgap.append htrail)]
      simp
  | @present w inside hw hinside =>
      rw [List.cons_append, skipBlanks_append_cons hgap (by decide)]
      simp

/-- The operation is read back. -/
theorem WritesOperation.takeOperation_eq
    {op : Option (List Char)}
    {gap operation trail : List Char}
    (h : WritesOperation op operation)
    (hgap : Blanks gap)
    (htrail : Blanks trail)
    (position : Nat) :
    (takeOperation position (skipBlanks (gap ++ (operation ++ trail)))).1.map Prod.fst = op := by
  cases h with
  | absent =>
      rw [List.nil_append, skipBlanks_of_blanks (hgap.append htrail)]
      rfl
  | @present w inside hw hinside =>
      have hskip :
          skipBlanks (gap ++ ('\x7b' :: (inside ++ ['\x7d']) ++ trail)) =
            '\x7b' :: (inside ++ '\x7d' :: trail) := by
        simpa using
          skipBlanks_append_cons hgap (c := '\x7b') (by decide) (inside ++ '\x7d' :: trail)
      have hcut : cutLast '\x7d' (inside ++ '\x7d' :: trail) = some (inside, trail) :=
        cutLast_append inside (htrail.notMem (by decide))
      have htrim := hinside.trim_eq hw.trimmed
      cases w with
      | nil =>
          exact absurd rfl hw.ne_nil
      | cons c w =>
          simp only [hskip, takeOperation, if_true, hcut, htrim, Option.map_some]

end Parts

def entry (d : Declaration) : Entry where
  name := String.ofList d.name
  edges := d.edges.map String.ofList
  operation := (d.operation.map Prod.fst).map String.ofList

theorem entry_node
    (d : Declaration)
    (number offset : Nat)
    (line : List Char) :
    (d.node number offset line).entry = d.entry := by
  cases hoperation : d.operation with
  | none => simp [node, Node.entry, entry, hoperation]
  | some operation => simp [node, Node.entry, entry, hoperation]

theorem parse?_of_parts
    {line name rest body : List Char}
    {edges : List (List Char)}
    (hheader : header? line = some (name, rest))
    (hedges : takeEdges (skipBlanks rest) = (edges, body)) :
    parse? line =
      some ⟨name, edges, (takeOperation (positionOf line body) body).1,
        (takeOperation (positionOf line body) body).2⟩ := by
  simp only [parse?, hheader, hedges]

/-- The line of a declaration is read back. -/
theorem Writes.exists_parse?
    {e : Entry}
    {line : List Char}
    (h : Writes e line) :
    ∃ d, parse? line = some d ∧ d.entry = e := by
  obtain ⟨name, edges, operation⟩ := e
  cases h with
  | line hlead hname hnamed hgap hlist hgap' hoperation htrail =>
      have hheader := header?_append hlead hname hnamed
      have hedges := hlist.takeEdges_eq hgap (hoperation.head?_ne hgap' htrail)
      have htake := hoperation.takeOperation_eq hgap' htrail
      refine ⟨_, parse?_of_parts (hheader _) hedges, ?_⟩
      simp only [entry, htake]
      simp

section Lines

/-- A text that does not end with a character of a line end. -/
def Closed (u : List Char) : Prop :=
  ∀ c ∈ u.getLast?, c ≠ '\n' ∧ c ≠ '\r'

theorem Closed.append
    {u v : List Char}
    (hu : Closed u)
    (hv : Closed v) :
    Closed (u ++ v) := by
  intro c hc
  rw [List.getLast?_append, Option.mem_def, Option.or_eq_some_iff] at hc
  rcases hc with hc | ⟨-, hc⟩
  · exact hv c hc
  · exact hu c hc

theorem closed_concat
    (u : List Char)
    {c : Char}
    (hc : c ≠ '\n' ∧ c ≠ '\r') :
    Closed (u ++ [c]) := by
  intro d hd
  simp only [List.getLast?_append, List.getLast?_singleton, Option.some_or,
    Option.mem_some_iff] at hd
  subst hd
  exact hc

theorem closed_blanks
    {a : List Char}
    (ha : Blanks a) :
    Closed a := by
  intro c hc
  have hblank := ha c (List.mem_of_getLast? hc)
  refine ⟨?_, ?_⟩
  · rintro rfl
    cases hblank
  · rintro rfl
    cases hblank

theorem WritesList.closed
    {ws : List (List Char)}
    {list : List Char}
    (h : WritesList ws list) :
    Closed list := by
  cases h with
  | absent =>
      simp [Closed]
  | @present _ inside _ _ =>
      exact closed_concat ('[' :: inside) (by decide)

theorem WritesOperation.closed
    {op : Option (List Char)}
    {operation : List Char}
    (h : WritesOperation op operation) :
    Closed operation := by
  cases h with
  | absent =>
      simp [Closed]
  | @present _ inside _ _ =>
      exact closed_concat ('\x7b' :: inside) (by decide)

theorem Writes.closed
    {e : Entry}
    {line : List Char}
    (h : Writes e line) :
    Closed line := by
  cases h with
  | @line lead named gap list gap' operation trail _ _ _ hgap hlist hgap' hoperation htrail =>
      have hhead : Closed (lead ++ '<' :: named ++ ['>']) := closed_concat _ (by decide)
      have htail : Closed (gap ++ (list ++ (gap' ++ (operation ++ trail)))) :=
        (closed_blanks hgap).append
          (hlist.closed.append
            ((closed_blanks hgap').append (hoperation.closed.append (closed_blanks htrail))))
      simpa using hhead.append htail

theorem WritesList.lineFeed_notMem
    {ws : List (List Char)}
    {list : List Char}
    (h : WritesList ws list) :
    '\n' ∉ list := by
  cases h with
  | absent =>
      simp
  | @present _ inside _ hinside =>
      have hnotMem : '\n' ∉ inside :=
        hinside.notMem (by decide) (by decide) fun _ hw => hw.lineFeed_notMem
      simp [hnotMem]

theorem WritesOperation.lineFeed_notMem
    {op : Option (List Char)}
    {operation : List Char}
    (h : WritesOperation op operation) :
    '\n' ∉ operation := by
  cases h with
  | absent => simp
  | present hw hinside => simp [hinside.notMem (c := '\n') (by decide) hw.lineFeed_notMem]

theorem IsName.lineFeed_notMem
    {w : List Char}
    (h : IsName w) :
    '\n' ∉ w := by
  intro hmem
  cases h.isWordChar _ hmem

theorem Writes.lineFeed_notMem
    {e : Entry}
    {line : List Char}
    (h : Writes e line) :
    '\n' ∉ line := by
  cases h with
  | line hlead hname hnamed hgap hlist hgap' hoperation htrail =>
      have hblank : isBlank '\n' = false := by decide
      simp [hlead.notMem hblank, hnamed.notMem hblank hname.lineFeed_notMem, hgap.notMem hblank,
        hlist.lineFeed_notMem, hgap'.notMem hblank, hoperation.lineFeed_notMem,
        htrail.notMem hblank]

/-- The end of a line is taken off. -/
theorem Closed.chomp_append
    {u stop : List Char}
    (hu : Closed u)
    (hstop : ∀ c ∈ stop, c = '\n' ∨ c = '\r') :
    chomp (u ++ stop) = u := by
  rw [chomp, List.reverse_append, dropWhile_append_of_head, List.reverse_reverse]
  · simpa using hstop
  · intro c hc
    rw [List.head?_reverse] at hc
    simpa using hu c hc

theorem chomp_append
    (u : List Char)
    {stop : List Char}
    (hstop : ∀ c ∈ stop, c = '\n' ∨ c = '\r') :
    chomp (u ++ stop) = chomp u := by
  rw [chomp, List.reverse_append, List.dropWhile_append_of_pos]
  · rfl
  · simpa using hstop

theorem parse?_eq_none
    {line : List Char}
    (h : line.find? (fun c => !isBlank c) ≠ some '<') :
    parse? line = none := by
  have hhead : (skipBlanks line).head? ≠ some '<' := by
    simpa [List.find?_eq_head?_dropWhile_not, skipBlanks] using h
  unfold parse? header?
  cases hskip : skipBlanks line with
  | nil =>
      rfl
  | cons c opened =>
      rw [hskip] at hhead
      have hc : c ≠ '<' := by simpa using hhead
      simp [hc]

/-- A line that declares nothing does so without its end as well. -/
theorem Noise.parse?_chomp
    {line : List Char}
    (h : Noise line) :
    parse? (chomp line) = none := by
  apply parse?_eq_none
  intro hfind
  have hbegins : chomp line <+: line := List.rdropWhile_prefix _ _
  exact h.head_ne (hbegins.find?_eq_some hfind)

end Lines

end Declaration

end GraphMachine
