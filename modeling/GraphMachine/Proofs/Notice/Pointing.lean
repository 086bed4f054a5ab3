import GraphMachine.Proofs.Notice.Location
import GraphMachine.Proofs.Program.Places
import GraphMachine.Proofs.Run.Diagnostics

/-!
# Where notices point

Every operation that a run skips is the operation of a node of its graph, and every error that is
about a declared node has the span of its declaration.  Both stand in the source where their spans
say, in bytes.

A notice reads these bytes as characters and has more ways to end a line than the source.  So it
shows the right line and column exactly if nothing before the place makes a difference: each
character is a single byte, and each line ends with a line feed or with a carriage return and a
line feed.  It shows no place at all if the span reaches past the number of characters.
-/

namespace GraphMachine

open Text

namespace Run

/-- A skipped operation that is the operation of a node of the graph. -/
def Diagnostic.IsOf (g : Graph) (d : Diagnostic) : Prop :=
  ∃ n, g.get? d.node = some n ∧ d.span = n.operationSpan

/-- A run notes no operations but those of nodes of its graph. -/
theorem Session.isOf_of_mem_skipped
    {s after : Session}
    {executed : Nat}
    {result : Except RunError Report}
    {d : Diagnostic}
    (hends : s.Ends executed result after)
    (hd : d ∈ after.skipped result) :
    d.IsOf s.graph := by
  obtain ⟨fuel, final, halt, hprogress, -, hconclude⟩ := hends
  have hskipped := skipped_conclude s.graph s.options halt final
  rw [hconclude] at hskipped
  rw [hskipped] at hd
  have hrecords := s.records_progress fuel
  rw [hprogress] at hrecords
  obtain ⟨i, -, m, n, hexecutes, hmem⟩ := (hrecords.mem_iff d).mp hd
  obtain ⟨err, -, rfl⟩ := Attempt.mem_diagnostics_iff.mp hmem
  have hget := hexecutes.declared
  rw [← Graph.name_of_get? hget] at hget
  exact ⟨n, hget, rfl⟩

/-- The node that an error is about. -/
def RunError.subject? : RunError → Option String
  | nodeNotFound _ referencedBy => referencedBy
  | tooManyEdges node _ => some node
  | stepLimit _ node => some node
  | output => none

end Run

namespace Notice

/-- The bytes of a text after other ones lead a notice to the place of the text: each character
before it is a single byte, each line before it ends in the plain way, and the end of the text, in
bytes, is not past the number of characters. -/
def Faithful (source before text : List Char) : Prop :=
  (∀ c ∈ before, c.utf8Size = 1) ∧
  PlainLines before ∧
  byteLength (before ++ text) - 1 ≤ source.length

/-- A notice about a text in the source shows its line and column exactly if its bytes are
faithful. -/
theorem shows_iff_of_stands
    {source : String}
    {line : Nat}
    {above lead text rest : List Char}
    {n : Notice}
    (color : Bool)
    (name : String)
    (hstands : Stands source.toList line above lead text rest)
    (htext : text ≠ [])
    (hspan :
      n.span = some ⟨byteLength (above ++ lead), byteLength (above ++ lead ++ text)⟩) :
    n.Shows color name source line (lead.length + 1) ↔
      Faithful source.toList (above ++ lead) text := by
  have hafter : text ++ rest ≠ [] := by simp [htext]
  have hhead : (text ++ rest).head? ≠ some '\n' := by
    rw [List.head?_append_of_ne_nil _ htext]
    exact fun hhead => hstands.text_plain (List.mem_of_mem_head? hhead)
  have hmark := mark?_byteLength_iff hstands.above_whole hstands.lead_plain hafter hhead
    (byteLength (above ++ lead ++ text))
  rw [List.append_assoc above, ← hstands.source_eq] at hmark
  rw [shows_iff, Faithful, ← hmark]
  constructor
  · rintro ⟨span, m, hspan', hm, hnumber, hcolumn⟩
    rw [hspan, Option.some.injEq] at hspan'
    subst hspan'
    exact ⟨m, hm, by rw [hnumber, hstands.line_eq], hcolumn⟩
  · rintro ⟨m, hm, hnumber, hcolumn⟩
    exact ⟨_, m, hspan, hm, by rw [hnumber, hstands.line_eq], hcolumn⟩

/-- An error about a declared node has the span of the declaration. -/
theorem exists_notice_of_subject
    {g : Graph}
    {err : Run.RunError}
    {node : String}
    {n : Node}
    (hsubject : err.subject? = some node)
    (hget : g.get? node = some n) :
    ∃ notice, ofRunError g err = some notice ∧ notice.span = some n.span := by
  have hspan : declarationSpan g node = some n.span := by
    simp [declarationSpan, hget]
  cases err with
  | nodeNotFound missing referencedBy =>
      cases hsubject
      exact ⟨_, rfl, hspan⟩
  | tooManyEdges node' count =>
      cases hsubject
      exact ⟨_, rfl, hspan⟩
  | stepLimit limit node' =>
      cases hsubject
      exact ⟨_, rfl, hspan⟩
  | output =>
      cases hsubject

/-- Notices about a program show where its operations and declarations stand, exactly if the bytes
before them are faithful.

* Every operation that a run skips, if it has a span, is the operation of a declared node.  It
  stands on the line of the node, and the warning shows this line and the column of its first
  character exactly if the bytes are faithful.
* An error about a declared node shows the line and the column of the angle bracket that starts the
  declaration exactly if the bytes are faithful. -/
theorem shows_place_iff_faithful
    (color : Bool)
    (name source : String) :
    (∀ (s after : Run.Session) (executed : Nat) (result : Except Run.RunError Run.Report)
        (d : Run.Diagnostic) (span : Span),
      s.graph = Program.parse source →
      s.Ends executed result after →
      d ∈ after.skipped result →
      d.span = some span →
      ∃ n above before space text rest,
        (Program.parse source).get? d.node = some n ∧
        n.operation = some (String.ofList text) ∧
        text ≠ [] ∧
        (∀ c ∈ space, isWhite c = true) ∧
        Stands source.toList n.line above (before ++ '\x7b' :: space) text rest ∧
        ((∃ frame,
          renderDiagnostic color name source d =
            headline color (ofDiagnostic d) ++
              header color name n.line ((before ++ '\x7b' :: space).length + 1) ++ frame) ↔
          Faithful source.toList (above ++ (before ++ '\x7b' :: space)) text)) ∧
    (∀ (err : Run.RunError) (node : String) (n : Node),
      err.subject? = some node →
      (Program.parse source).get? node = some n →
      ∃ notice above lead text rest,
        ofRunError (Program.parse source) err = some notice ∧
        text.head? = some '<' ∧
        (∀ c ∈ lead, isBlank c = true) ∧
        Stands source.toList n.line above lead text rest ∧
        ((∃ frame,
          renderRunError color name source (Program.parse source) err =
            headline color notice ++ header color name n.line (lead.length + 1) ++ frame) ↔
          Faithful source.toList (above ++ lead) text)) := by
  refine ⟨?_, ?_⟩
  · intro s after executed result d span hgraph hends hd hspan
    obtain ⟨n, hget, hspan'⟩ := Run.Session.isOf_of_mem_skipped hends hd
    rw [hgraph] at hget
    rw [hspan] at hspan'
    obtain ⟨above, before, space, text, rest, hstands, hspace, htext, hoperation, rfl⟩ :=
      Program.exists_stands_operation hget hspan'.symm
    refine ⟨n, above, before, space, text, rest, hget, hoperation, htext, hspace, hstands, ?_⟩
    exact shows_iff_of_stands (n := ofDiagnostic d) color name hstands htext hspan
  · intro err node n hsubject hget
    obtain ⟨notice, hnotice, hspan⟩ := exists_notice_of_subject hsubject hget
    obtain ⟨above, lead, text, rest, hstands, hlead, hhead, hnode⟩ :=
      Program.exists_stands_declaration hget
    have htext : text ≠ [] := by
      rintro rfl
      cases hhead
    refine ⟨notice, above, lead, text, rest, hnotice, hhead, hlead, hstands, ?_⟩
    rw [hnode] at hspan
    have hshows := shows_iff_of_stands color name hstands htext hspan
    unfold renderRunError
    rw [hnotice]
    exact hshows

/-- A program with a character of two bytes above an operation that is skipped. -/
def accentAbove : String :=
  "# é\n<start>[end]\x7bJUMP\x7d"

/-- The operation stands in column 14 of line 2, and the warning about it shows column 15. -/
theorem accentAbove_shows_next_column :
    ∃ (after : Run.Session) (result : Except Run.RunError Run.Report) (d : Run.Diagnostic),
      (Run.Session.new (Program.parse accentAbove) .standard .unlimited .off).Ends 1 result
        after ∧
      d ∈ after.skipped result ∧
      Stands accentAbove.toList 2 "# é\n".toList "<start>[end]\x7b".toList "JUMP".toList
        "\x7d".toList ∧
      (ofDiagnostic d).Shows false "p" accentAbove 2 15 ∧
      ¬ (ofDiagnostic d).Shows false "p" accentAbove 2 14 := by
  have hresult :
      ((Run.Session.new (Program.parse accentAbove) .standard .unlimited .off).runWithin 2).map
          Prod.fst =
        some (.ok ⟨1, "end", 0, #[⟨1, "start", some ⟨18, 22⟩, .unsupported "JUMP"⟩]⟩) := by
    decide +kernel
  obtain ⟨⟨result, after⟩, hrun, rfl⟩ := Option.map_eq_some_iff.mp hresult
  have hmark :
      mark? accentAbove.toList ⟨18, 22⟩ =
        some ⟨⟨2, 14, "<start>[end]\x7bJUMP\x7d".toList⟩, 4⟩ := by
    decide +kernel
  refine ⟨after, _, ⟨1, "start", some ⟨18, 22⟩, .unsupported "JUMP"⟩,
    Run.Session.ends_of_runWithin_ok hrun, by simp [Run.Session.skipped],
    ⟨by decide, .inr (by decide), by decide, by decide, by decide⟩, ?_, ?_⟩
  · rw [shows_iff]
    exact ⟨_, _, rfl, hmark, rfl, rfl⟩
  · rw [shows_iff]
    rintro ⟨span, m, hspan, hm, -, hcolumn⟩
    cases hspan
    rw [hmark] at hm
    cases hm
    cases hcolumn

end Notice
end GraphMachine
