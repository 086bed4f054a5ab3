import GraphMachine.Proofs.Text.Words

/-!
# Cuts and trimming

Where a text that is put together from parts is cut again: at the first and at the last occurrence
of a character, at all occurrences, and at the white space around it.
-/

namespace GraphMachine
namespace Text

section Cuts

variable {d : Char}
variable {u v : List Char}

/-- A text is cut at the first occurrence if there is none before it. -/
theorem cutFirst_append
    (hu : d ∉ u)
    (v : List Char) :
    cutFirst d (u ++ d :: v) = some (u, v) := by
  induction u with
  | nil =>
      simp [cutFirst]
  | cons c u ih =>
      rw [List.mem_cons, not_or] at hu
      simp [cutFirst, Ne.symm hu.1, ih hu.2]

theorem cutLast_eq_none
    (hv : d ∉ v) :
    cutLast d v = none := by
  induction v with
  | nil =>
      rfl
  | cons c v ih =>
      rw [List.mem_cons, not_or] at hv
      simp [cutLast, Ne.symm hv.1, ih hv.2]

/-- A text is cut at the last occurrence if there is none after it. -/
theorem cutLast_append
    (u : List Char)
    (hv : d ∉ v) :
    cutLast d (u ++ d :: v) = some (u, v) := by
  induction u with
  | nil =>
      simp [cutLast, cutLast_eq_none hv]
  | cons c u ih =>
      simp [cutLast, ih]

theorem pieces_eq_singleton
    (hu : d ∉ u) :
    pieces d u = [u] := by
  induction u with
  | nil =>
      rfl
  | cons c u ih =>
      rw [List.mem_cons, not_or] at hu
      simp [pieces, Ne.symm hu.1, ih hu.2]

theorem pieces_append
    (hu : d ∉ u)
    (v : List Char) :
    pieces d (u ++ d :: v) = u :: pieces d v := by
  induction u with
  | nil =>
      simp [pieces]
  | cons c u ih =>
      rw [List.mem_cons, not_or] at hu
      simp [pieces, Ne.symm hu.1, ih hu.2]

end Cuts

section Trimming

/-- A text that neither starts nor ends with white space. -/
structure Trimmed (w : List Char) : Prop where
  head : ∀ c ∈ w.head?, isWhite c = false
  last : ∀ c ∈ w.getLast?, isWhite c = false

theorem trimmed_iff
    (w : List Char) :
    Trimmed w ↔ w.head?.any isWhite = false ∧ w.getLast?.any isWhite = false := by
  have hany (o : Option Char) : (∀ c ∈ o, isWhite c = false) ↔ o.any isWhite = false := by
    cases o with
    | none => simp
    | some c => simp
  rw [← hany, ← hany]
  exact ⟨fun h => ⟨h.head, h.last⟩, fun h => ⟨h.1, h.2⟩⟩

instance (w : List Char) : Decidable (Trimmed w) :=
  decidable_of_iff _ (trimmed_iff w).symm

variable {a w b : List Char}

/-- Trimming takes away the white space around a text, and nothing else. -/
theorem trim_append
    (ha : ∀ c ∈ a, isWhite c = true)
    (hw : Trimmed w)
    (hb : ∀ c ∈ b, isWhite c = true) :
    trim (a ++ (w ++ b)) = w := by
  cases w with
  | nil =>
      have hwhite : ∀ c ∈ a ++ b, isWhite c = true := List.forall_mem_append.mpr ⟨ha, hb⟩
      have hstart : trimStart (a ++ b) = [] := List.dropWhile_eq_nil_iff.mpr hwhite
      rw [List.nil_append, trim, hstart]
      rfl
  | cons c w =>
      have hstart : trimStart (a ++ (c :: w ++ b)) = c :: w ++ b := by
        apply dropWhile_append_of_head ha
        simpa using hw.head
      have hend : trimEnd (c :: w ++ b) = c :: w := by
        rw [trimEnd, dropEndWhile, List.reverse_append]
        rw [dropWhile_append_of_head (p := isWhite), List.reverse_reverse]
        · simpa using hb
        · rw [List.head?_reverse]
          exact hw.last
      rw [trim, hstart, hend]

/-- A text between two characters that are not white is trimmed. -/
theorem trim_enclosed
    {c d : Char}
    (hc : isWhite c = false)
    (hd : isWhite d = false)
    (inside : List Char) :
    trim (c :: (inside ++ [d])) = c :: (inside ++ [d]) := by
  have hlast : (c :: (inside ++ [d])).getLast? = some d := by
    rw [← List.cons_append, List.getLast?_concat]
  have htrimmed : Trimmed (c :: (inside ++ [d])) := by
    rw [trimmed_iff, hlast]
    exact ⟨hc, hd⟩
  simpa using trim_append (a := []) (b := []) (by simp) htrimmed (by simp)

end Trimming

end Text
end GraphMachine
