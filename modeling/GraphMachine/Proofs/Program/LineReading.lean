import GraphMachine.Program.Log
import GraphMachine.Proofs.Program.Spelling
import GraphMachine.Proofs.Text.Splitting

/-!
# Reading lines

Every line is read, whatever stands on it.  The relation `Declaration.Reads` says what a line
declares by how it is put together from its parts, with the first closing bracket and the last
closing brace as the ends of the edges and of the operation.  A part that is not closed is no part,
and what is left over is ignored.

A line declares a node exactly if it starts with a name in angle brackets, and the node says exactly
what the relation says.
-/

namespace GraphMachine

open Text

namespace Declaration

/-- The edges that a text starts with, and the text after them and after blanks.  They reach to the
first closing bracket.  A single edge without a name stands for none. -/
inductive ReadsEdges : List Char → List (List Char) → List Char → Prop
  | listed
      {inside after body : List Char}
      {ps ws : List (List Char)}
      (hinside : ']' ∉ inside)
      (hps : Splits '|' inside ps)
      (hws : List.Forall₂ Trims ps ws)
      (hbody : Skips after body) :
      ReadsEdges ('[' :: (inside ++ ']' :: after)) (if ws = [[]] then [] else ws) body
  | absent
      {text : List Char}
      (h : ¬ (text.head? = some '[' ∧ ']' ∈ text)) :
      ReadsEdges text [] text

/-- The operation that a text starts with.  It reaches to the last closing brace.  White space alone
is no operation. -/
inductive ReadsOperation : List Char → Option (List Char) → Prop
  | braced
      {inside leftover w : List Char}
      (hleftover : '\x7d' ∉ leftover)
      (hw : Trims inside w) :
      ReadsOperation ('\x7b' :: (inside ++ '\x7d' :: leftover)) (if w = [] then none else some w)
  | absent
      {text : List Char}
      (h : ¬ (text.head? = some '\x7b' ∧ '\x7d' ∈ text)) :
      ReadsOperation text none

/-- A line that starts with a name in angle brackets, and the rest of it. -/
inductive Heads : List Char → List Char → List Char → Prop
  | header
      {lead name named : List Char}
      (hlead : Blanks lead)
      (hname : IsName name)
      (hnamed : Padded name named)
      (rest : List Char) :
      Heads (lead ++ '<' :: (named ++ '>' :: rest)) name rest

/-- What a line declares. -/
inductive Reads : List Char → Entry → Prop
  | line
      {line name rest text body : List Char}
      {edges : List (List Char)}
      {operation : Option (List Char)}
      (hheads : Heads line name rest)
      (htext : Skips rest text)
      (hedges : ReadsEdges text edges body)
      (hoperation : ReadsOperation body operation) :
      Reads line ⟨String.ofList name, edges.map String.ofList, operation.map String.ofList⟩

section Parts

variable {line name rest text body : List Char}
variable {edges : List (List Char)}
variable {operation : Option (List Char)}

theorem heads_iff :
    Heads line name rest ↔ header? line = some (name, rest) := by
  constructor
  · rintro ⟨hlead, hname, hnamed, _⟩
    exact header?_append hlead hname hnamed rest
  · intro h
    unfold header? at h
    split at h
    · cases h
    · next c opened hopen =>
        split at h
        · next hc =>
            split at h
            · cases h
            · next name' rest' hword =>
                split at h
                · cases h
                · next d after hclose =>
                    split at h
                    · next hd =>
                        cases h
                        subst hc hd
                        obtain ⟨lead, hlead, rfl, -⟩ := skips_iff.mpr hopen
                        obtain ⟨a, ha, hopened, -⟩ : Skips opened (skipBlanks opened) :=
                          skips_iff.mpr rfl
                        obtain ⟨b, hb, rfl, -⟩ := skips_iff.mpr hclose
                        obtain ⟨hname, -, hskipped⟩ := word?_eq_some_iff.mp hword
                        have hparts : opened = a ++ (name ++ b) ++ '>' :: rest := by
                          rw [hopened, hskipped]
                          simp
                        rw [hparts]
                        have hname := (isName_iff_isWord name).mpr hname
                        exact .header hlead hname ⟨a, b, ha, hb, rfl⟩ rest
                    · cases h
        · cases h

theorem forall₂_trims_iff
    {ps ws : List (List Char)} :
    List.Forall₂ Trims ps ws ↔ ps.map trim = ws := by
  have htrims : Trims = fun p w => trim p = w := by
    funext p w
    exact propext trims_iff
  rw [htrims, ← List.forall₂_map_left_iff (R := Eq), List.forall₂_eq_eq_eq]

theorem edgesOf_eq
    {inside : List Char}
    {ps ws : List (List Char)}
    (hps : Splits '|' inside ps)
    (hws : List.Forall₂ Trims ps ws) :
    edgesOf inside = if ws = [[]] then [] else ws := by
  unfold edgesOf
  rw [splits_iff.mp hps, forall₂_trims_iff.mp hws]
  split
  · rfl
  · next hne => rw [if_neg hne]

theorem ReadsEdges.takeEdges_eq
    (h : ReadsEdges text edges body) :
    takeEdges text = (edges, body) := by
  cases h with
  | @listed inside after _ ps ws hinside hps hws hbody =>
      have hcut := cutFirst_append hinside after
      simp only [takeEdges, if_true, hcut, edgesOf_eq hps hws, skips_iff.mp hbody]
  | absent h =>
      cases text with
      | nil =>
          rfl
      | cons c opened =>
          by_cases hc : c = '['
          · subst hc
            have hbracket : ']' ∉ opened := by simpa using h
            simp only [takeEdges, if_true, cutFirst_eq_none hbracket]
          · simp only [takeEdges, if_neg hc]

theorem readsEdges_takeEdges
    (text : List Char) :
    ReadsEdges text (takeEdges text).1 (takeEdges text).2 := by
  cases text with
  | nil =>
      exact .absent (by simp)
  | cons c opened =>
      by_cases hc : c = '['
      · subst hc
        cases hcut : cutFirst ']' opened with
        | none =>
            have hbracket := notMem_of_cutFirst hcut
            simp only [takeEdges, if_true, hcut]
            exact .absent (by simp [hbracket])
        | some parts =>
            obtain ⟨inside, after⟩ := parts
            obtain ⟨hinside, rfl⟩ := cutFirst_eq_some_iff.mp hcut
            have hps := splits_pieces '|' inside
            have hws := forall₂_trims_iff.mpr (rfl : (pieces '|' inside).map trim = _)
            simp only [takeEdges, if_true, hcut, edgesOf_eq hps hws]
            exact .listed hinside hps hws (skips_iff.mpr rfl)
      · simp only [takeEdges, if_neg hc]
        exact .absent (by simp [hc])

theorem ReadsOperation.takeOperation_eq
    (h : ReadsOperation text operation)
    (position : Nat) :
    (takeOperation position text).1.map Prod.fst = operation := by
  cases h with
  | @braced inside leftover w hleftover hw =>
      have hcut := cutLast_append inside hleftover
      simp only [takeOperation, if_true, hcut, trims_iff.mp hw]
      cases w with
      | nil => rfl
      | cons d w => rfl
  | absent h =>
      cases text with
      | nil =>
          rfl
      | cons c opened =>
          by_cases hc : c = '\x7b'
          · subst hc
            have hbrace : '\x7d' ∉ opened := by simpa using h
            simp only [takeOperation, if_true, cutLast_eq_none hbrace, Option.map_none]
          · simp only [takeOperation, if_neg hc, Option.map_none]

theorem readsOperation_takeOperation
    (position : Nat)
    (text : List Char) :
    ReadsOperation text ((takeOperation position text).1.map Prod.fst) := by
  cases text with
  | nil =>
      exact .absent (by simp)
  | cons c opened =>
      by_cases hc : c = '\x7b'
      · subst hc
        cases hcut : cutLast '\x7d' opened with
        | none =>
            have hbrace := notMem_of_cutLast hcut
            simp only [takeOperation, if_true, hcut]
            exact .absent (by simp [hbrace])
        | some parts =>
            obtain ⟨inside, leftover⟩ := parts
            obtain ⟨hleftover, rfl⟩ := cutLast_eq_some_iff.mp hcut
            have hreads := ReadsOperation.braced hleftover (trims_iff.mpr (rfl : trim inside = _))
            rwa [hreads.takeOperation_eq position]
      · simp only [takeOperation, if_neg hc]
        exact .absent (by simp [hc])

end Parts

/-- A line is read as what the relation says. -/
theorem map_entry_parse?_iff
    {line : List Char}
    {e : Entry} :
    (parse? line).map entry = some e ↔ Reads line e := by
  constructor
  · intro h
    obtain ⟨d, hparse, rfl⟩ := Option.map_eq_some_iff.mp h
    cases hheader : header? line with
    | none =>
        simp [parse?, hheader] at hparse
    | some parts =>
        obtain ⟨name, rest⟩ := parts
        rw [parse?_of_parts hheader rfl] at hparse
        cases hparse
        exact .line (heads_iff.mpr hheader) (skips_iff.mpr rfl) (readsEdges_takeEdges _)
          (readsOperation_takeOperation _ _)
  · rintro ⟨hheads, htext, hedges, hoperation⟩
    have htake := hedges.takeEdges_eq
    rw [← skips_iff.mp htext] at htake
    rw [parse?_of_parts (heads_iff.mp hheads) htake]
    simp only [Option.map_some, entry, hoperation.takeOperation_eq]

/-- A list of edges that is not closed hides the operation after it. -/
example : Reads "<a> [b|c \x7bSET(1)\x7d".toList ⟨"a", [], none⟩ :=
  map_entry_parse?_iff.mp (by decide)

end Declaration

namespace Reading

end Reading
end GraphMachine
