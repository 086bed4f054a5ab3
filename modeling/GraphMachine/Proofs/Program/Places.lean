import GraphMachine.Program.Log
import GraphMachine.Proofs.Graph.Insertion
import GraphMachine.Proofs.Text.Lines
import GraphMachine.Proofs.Text.Splitting

/-!
# Where declarations stand

The spans of a node say in bytes where its declaration and its operation stand in the source, and
its line is the number of the line on which they do.

A source is cut into lines, each of which ends with its line feed, and a line into the parts of a
declaration.  No step loses characters, so a part is found again behind the bytes of all that comes
before it.
-/

namespace GraphMachine

open Text

/-- A text stands on a line of the source: whole lines come before that line, and a part of it
before the text. -/
structure Stands (source : List Char) (line : Nat) (above lead text rest : List Char) : Prop where
  source_eq : source = above ++ (lead ++ (text ++ rest))
  above_whole : WholeLines above
  line_eq : line = above.count '\n' + 1
  lead_plain : '\n' ∉ lead
  text_plain : '\n' ∉ text

namespace Text

section Cuts

/-- White space at the end is dropped up to the last character that is not white. -/
theorem trimEnd_append_cons
    (u : List Char)
    {c : Char}
    {v : List Char}
    (hc : isWhite c = false) :
    trimEnd (u ++ c :: v) = u ++ c :: trimEnd v := by
  simp only [trimEnd, dropEndWhile, List.reverse_append, List.reverse_cons, List.append_assoc,
    List.singleton_append, List.dropWhile_append]
  split
  · next hempty =>
      rw [List.isEmpty_iff.mp hempty]
      simp [hc]
  · simp

@[simp] theorem positionOf_append
    (u v : List Char) :
    positionOf (u ++ v) v = byteLength u := by
  simp [positionOf]

end Cuts

end Text

namespace Declaration

theorem suffix_of_word?
    {p : Char → Bool}
    {cs word rest : List Char}
    (h : word? p cs = some (word, rest)) :
    rest <:+ cs := by
  obtain ⟨-, -, rfl⟩ := word?_eq_some_iff.mp h
  exact List.suffix_append word rest

theorem suffix_skipBlanks
    (cs : List Char) :
    skipBlanks cs <:+ cs :=
  List.dropWhile_suffix _

/-- A declaration starts with an angle bracket after blanks. -/
theorem exists_eq_of_header?
    {line name rest : List Char}
    (h : header? line = some (name, rest)) :
    ∃ blanks opened,
      line = blanks ++ '<' :: opened ∧
      (∀ c ∈ blanks, isBlank c = true) ∧
      rest <:+ opened := by
  unfold header? at h
  split at h
  · cases h
  · next c opened hskip =>
      split at h
      · next hc =>
          subst hc
          refine ⟨line.takeWhile isBlank, opened, ?_, fun c hc => List.mem_takeWhile_imp hc, ?_⟩
          · rw [← hskip]
            exact List.takeWhile_append_dropWhile.symm
          · split at h
            · cases h
            · next name' rest' hword =>
                split at h
                · cases h
                · next d after hafter =>
                    split at h
                    · cases h
                      have hclosed := suffix_skipBlanks rest'
                      rw [hafter] at hclosed
                      exact ((List.suffix_cons d rest).trans hclosed).trans
                        ((suffix_of_word? hword).trans (suffix_skipBlanks opened))
                    · cases h
      · cases h

theorem suffix_takeEdges
    (text : List Char) :
    (takeEdges text).2 <:+ text := by
  unfold takeEdges
  split
  · exact List.suffix_rfl
  · next c opened =>
      split
      · split
        · next inside after hcut =>
            rw [(cutFirst_eq_some_iff.mp hcut).2]
            refine (suffix_skipBlanks after).trans ?_
            exact ⟨c :: (inside ++ [']']), by simp⟩
        · exact List.suffix_rfl
      · exact List.suffix_rfl

/-- An operation stands after an open brace and white space. -/
theorem exists_eq_of_takeOperation
    {position start : Nat}
    {text operation leftover : List Char}
    (h : takeOperation position text = (some (operation, start), leftover)) :
    ∃ space rest,
      text = '\x7b' :: (space ++ (operation ++ rest)) ∧
      (∀ c ∈ space, isWhite c = true) ∧
      start = position + 1 + byteLength space ∧
      operation ≠ [] := by
  unfold takeOperation at h
  split at h
  · cases h
  · next c opened =>
      split at h
      · next hc =>
          subst hc
          split at h
          · cases h
          · next inside after hcut =>
              split at h
              · cases h
              · next d ds htrim =>
                  cases h
                  have hstart := List.takeWhile_append_dropWhile (p := isWhite) (l := inside)
                  obtain ⟨space', hend⟩ : d :: ds <+: trimStart inside := by
                    rw [← htrim]
                    exact List.rdropWhile_prefix _ _
                  refine ⟨inside.takeWhile isWhite, space' ++ '\x7d' :: leftover, ?_,
                    fun c hc => List.mem_takeWhile_imp hc, ?_, by simp⟩
                  · rw [(cutLast_eq_some_iff.mp hcut).2]
                    nth_rewrite 1 [← hstart]
                    simp only [trimStart] at hend
                    rw [← hend]
                    simp
                  · congr 1
                    nth_rewrite 1 [← hstart]
                    exact positionOf_append _ _
      · cases h

section Parts

variable {line : List Char} {d : Declaration}

/-- A declaration is made of the header, the edges and the operation of its line. -/
theorem exists_parts_of_parse?
    (h : parse? line = some d) :
    ∃ name rest body,
      header? line = some (name, rest) ∧
      body = (takeEdges (skipBlanks rest)).2 ∧
      takeOperation (positionOf line body) body = (d.operation, d.leftover) := by
  cases hheader : header? line with
  | none =>
      simp [parse?, hheader] at h
  | some parts =>
      obtain ⟨name, rest⟩ := parts
      simp only [parse?, hheader, Option.some.injEq] at h
      rw [← h]
      exact ⟨name, rest, _, rfl, rfl, rfl⟩

/-- The operation of a declaration stands at its position in the line. -/
theorem exists_eq_of_operation
    {operation : List Char}
    {start : Nat}
    (h : parse? line = some d)
    (hoperation : d.operation = some (operation, start)) :
    ∃ before space rest,
      line = (before ++ '\x7b' :: space) ++ (operation ++ rest) ∧
      (∀ c ∈ space, isWhite c = true) ∧
      start = byteLength (before ++ '\x7b' :: space) ∧
      operation ≠ [] := by
  obtain ⟨name, rest, body, hheader, hbody, htake⟩ := exists_parts_of_parse? h
  obtain ⟨blanks, opened, hline, _, hrest⟩ := exists_eq_of_header? hheader
  have hopened : opened <:+ line := ⟨blanks ++ ['<'], by simp [hline]⟩
  obtain ⟨before, hbefore⟩ : body <:+ line := by
    rw [hbody]
    exact (suffix_takeEdges _).trans ((suffix_skipBlanks rest).trans (hrest.trans hopened))
  rw [hoperation] at htake
  obtain ⟨space, rest', htext, hspace, hstart, hne⟩ := exists_eq_of_takeOperation htake
  refine ⟨before, space, rest', ?_, hspace, ?_, hne⟩
  · rw [← hbefore, htext]
    simp
  · have hbrace : '\x7b'.utf8Size = 1 := by decide
    have hposition : positionOf line body = byteLength before := by
      rw [← hbefore, positionOf_append]
    rw [hstart, hposition, byteLength_append, byteLength_cons]
    omega

/-- A declaration without the white space around it starts with its angle bracket. -/
theorem exists_eq_of_parse?
    (h : parse? line = some d) :
    ∃ lead text rest,
      line = lead ++ (text ++ rest) ∧
      (∀ c ∈ lead, isBlank c = true) ∧
      text.head? = some '<' ∧
      positionOf line (trimStart line) = byteLength lead ∧
      trimEnd line = lead ++ text := by
  obtain ⟨name, rest, body, hheader, _, _⟩ := exists_parts_of_parse? h
  obtain ⟨blanks, opened, hline, hblanks, _⟩ := exists_eq_of_header? hheader
  have hwhite : ∀ c ∈ blanks, isWhite c = true :=
    fun c hc => isWhite_of_isGap (isGap_of_isBlank (hblanks c hc))
  have hangle : isWhite '<' = false := by decide
  have htrimStart : trimStart line = '<' :: opened := by
    rw [hline, trimStart, List.dropWhile_append_of_pos hwhite]
    simp [hangle]
  obtain ⟨white, hend⟩ : trimEnd opened <+: opened := List.rdropWhile_prefix _ _
  refine ⟨blanks, '<' :: trimEnd opened, white, ?_, hblanks, rfl, ?_, ?_⟩
  · rw [hline, List.cons_append, hend]
  · rw [htrimStart, hline, positionOf_append]
  · rw [hline, trimEnd_append_cons _ hangle]

end Parts

end Declaration

namespace Program

/-- Every node is declared on a line, whose number and offset it knows. -/
theorem exists_line_of_mem
    {number offset : Nat}
    {ls : List (List Char)}
    {n : Node}
    (h : n ∈ (readFrom number offset ls).filterMap Reading.node?) :
    ∃ us raw vs d,
      ls = us ++ raw :: vs ∧
      Declaration.parse? (chomp raw) = some d ∧
      n = d.node (number + us.length) (offset + byteLength us.flatten) (chomp raw) := by
  induction ls generalizing number offset with
  | nil =>
      simp [readFrom] at h
  | cons raw ls ih =>
      simp only [readFrom, List.mem_filterMap, List.mem_cons] at h
      obtain ⟨reading, hreading | hmem, hnode⟩ := h
      · subst hreading
        unfold Reading.ofLine at hnode
        split at hnode
        · next d hparse =>
            cases hnode
            exact ⟨[], raw, ls, d, rfl, hparse, by simp⟩
        · split at hnode <;> cases hnode
      · obtain ⟨us, raw', vs, d, rfl, hparse, hn⟩ :=
          ih (List.mem_filterMap.mpr ⟨reading, hmem, hnode⟩)
        refine ⟨raw :: us, raw', vs, d, rfl, hparse, ?_⟩
        simpa [Nat.add_assoc, Nat.add_comm 1] using hn

variable {source name : String} {n : Node}

/-- The lines of a source before the one that declares a node. -/
theorem exists_declaration
    (h : (parse source).get? name = some n) :
    ∃ above line below d,
      source.toList = above ++ (line ++ below) ∧
      WholeLines above ∧
      '\n' ∉ line ∧
      Declaration.parse? line = some d ∧
      n = d.node (above.count '\n' + 1) (byteLength above) line := by
  rw [parse_eq] at h
  obtain ⟨us, raw, vs, d, hlines, hparse, hn⟩ := exists_line_of_mem (Graph.mem_of_get?_ofList h)
  obtain ⟨hus, hraw⟩ := isWholeLine_of_lines hlines
  obtain ⟨lineEnd, hend⟩ : chomp raw <+: raw := List.rdropWhile_prefix _ _
  refine ⟨us.flatten, chomp raw, lineEnd ++ vs.flatten, d, ?_,
    wholeLines_flatten hus, lineFeed_notMem_chomp hraw, hparse, ?_⟩
  · rw [← flatten_lines source.toList, hlines]
    nth_rewrite 1 [← hend]
    simp
  · rw [hn, count_flatten_of_whole hus, Nat.add_comm 1, Nat.zero_add]

/-- The declaration of a node stands on its line, after blanks, and fills its span. -/
theorem exists_stands_declaration
    (h : (parse source).get? name = some n) :
    ∃ above lead text rest,
      Stands source.toList n.line above lead text rest ∧
      (∀ c ∈ lead, isBlank c = true) ∧
      text.head? = some '<' ∧
      n.span = ⟨byteLength (above ++ lead), byteLength (above ++ lead ++ text)⟩ := by
  obtain ⟨above, line, below, d, hsource, habove, hline, hparse, rfl⟩ := exists_declaration h
  obtain ⟨lead, text, rest, hparts, hlead, hhead, hstart, hstop⟩ :=
    Declaration.exists_eq_of_parse? hparse
  have hplain : '\n' ∉ lead := fun hmem => hline (hparts ▸ List.mem_append_left _ hmem)
  have htext : '\n' ∉ text :=
    fun hmem => hline (hparts ▸ List.mem_append_right _ (List.mem_append_left rest hmem))
  refine ⟨above, lead, text, rest ++ below, ⟨?_, habove, rfl, hplain, htext⟩, hlead, hhead, ?_⟩
  · rw [hsource, hparts]
    simp
  · simp only [Declaration.node, hstart, hstop, byteLength_append, Nat.add_assoc]

/-- The operation of a node stands on its line, after an open brace and white space, and fills its
span. -/
theorem exists_stands_operation
    {span : Span}
    (h : (parse source).get? name = some n)
    (hspan : n.operationSpan = some span) :
    ∃ above before space text rest,
      Stands source.toList n.line above (before ++ '\x7b' :: space) text rest ∧
      (∀ c ∈ space, isWhite c = true) ∧
      text ≠ [] ∧
      n.operation = some (String.ofList text) ∧
      span =
        ⟨byteLength (above ++ (before ++ '\x7b' :: space)),
          byteLength (above ++ (before ++ '\x7b' :: space) ++ text)⟩ := by
  obtain ⟨above, line, below, d, hsource, habove, hline, hparse, rfl⟩ := exists_declaration h
  obtain ⟨⟨text, start⟩, hoperation, hspan⟩ := Option.map_eq_some_iff.mp hspan
  obtain ⟨before, space, rest, hparts, hspace, hstart, hne⟩ :=
    Declaration.exists_eq_of_operation hparse hoperation
  have hlead : '\n' ∉ before ++ '\x7b' :: space :=
    fun hmem => hline (hparts ▸ List.mem_append_left _ hmem)
  have htext : '\n' ∉ text :=
    fun hmem => hline (hparts ▸ List.mem_append_right _ (List.mem_append_left rest hmem))
  refine ⟨above, before, space, text, rest ++ below,
    ⟨?_, habove, rfl, hlead, htext⟩, hspace, hne, ?_, ?_⟩
  · rw [hsource, hparts]
    simp
  · simp [Declaration.node, hoperation]
  · rw [← hspan, hstart, byteLength_append above, byteLength_append _ text, byteLength_append above]

end Program

end GraphMachine
