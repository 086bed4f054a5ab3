import GraphMachine.Proofs.Text.Words
import GraphMachine.Text.Lines

/-!
# Whole lines

A line is whole if a line feed ends it, and a text of whole lines is empty or ends with a line feed.
Only the last line of a text can lack its line feed.  So texts of whole lines are cut into lines
independently of what follows, and the number of their lines is that of their line feeds.
-/

namespace GraphMachine
namespace Text

/-- A line that ends with the only line feed in it. -/
def IsWholeLine (l : List Char) : Prop :=
  ∃ body, '\n' ∉ body ∧ l = body ++ ['\n']

theorem IsWholeLine.cons
    {c : Char}
    {l : List Char}
    (hl : IsWholeLine l)
    (hc : c ≠ '\n') :
    IsWholeLine (c :: l) := by
  obtain ⟨body, hbody, rfl⟩ := hl
  exact ⟨c :: body, by simp [hbody, hc.symm], rfl⟩

/-- Whole lines alone: the text is empty, or it ends with a line feed. -/
def WholeLines (u : List Char) : Prop :=
  u = [] ∨ u.getLast? = some '\n'

instance (u : List Char) : Decidable (WholeLines u) :=
  inferInstanceAs (Decidable (u = [] ∨ u.getLast? = some '\n'))

/-- All lines before another one are whole, and a line without a line feed can only be the last. -/
theorem isWholeLine_of_lines
    {cs raw : List Char}
    {us vs : List (List Char)}
    (h : lines cs = us ++ raw :: vs) :
    (∀ l ∈ us, IsWholeLine l) ∧ (IsWholeLine raw ∨ '\n' ∉ raw) := by
  induction cs generalizing us raw vs with
  | nil =>
      simp [lines] at h
  | cons c cs ih =>
      by_cases hc : c = '\n'
      · subst hc
        have hwhole : IsWholeLine ['\n'] := ⟨[], by simp, rfl⟩
        simp only [lines, if_true] at h
        cases us with
        | nil =>
            simp only [List.nil_append, List.cons.injEq] at h
            exact ⟨by simp, .inl (h.1 ▸ hwhole)⟩
        | cons l us =>
            simp only [List.cons_append, List.cons.injEq] at h
            obtain ⟨hus, hraw⟩ := ih h.2
            refine ⟨?_, hraw⟩
            rw [List.forall_mem_cons, ← h.1]
            exact ⟨hwhole, hus⟩
      · simp only [lines, hc, if_false] at h
        cases hcs : lines cs with
        | nil =>
            rw [hcs] at h
            cases us with
            | nil =>
                simp only [List.nil_append, List.cons.injEq] at h
                exact ⟨by simp, .inr (by simpa [← h.1] using Ne.symm hc)⟩
            | cons l us =>
                simp at h
        | cons l ls =>
            rw [hcs] at h
            cases us with
            | nil =>
                simp only [List.nil_append, List.cons.injEq] at h
                have hfirst : lines cs = [] ++ l :: ls := hcs
                obtain ⟨-, hl⟩ := ih hfirst
                refine ⟨by simp, ?_⟩
                rw [← h.1]
                rcases hl with hl | hl
                · exact .inl (hl.cons hc)
                · exact .inr (by simp [hl, Ne.symm hc])
            | cons l' us =>
                simp only [List.cons_append, List.cons.injEq] at h
                have hrest : lines cs = (l :: us) ++ raw :: vs := by
                  rw [hcs, h.2]
                  rfl
                obtain ⟨hus, hraw⟩ := ih hrest
                rw [List.forall_mem_cons] at hus ⊢
                rw [← h.1]
                exact ⟨⟨hus.1.cons hc, hus.2⟩, hraw⟩

theorem count_flatten_of_whole
    {us : List (List Char)}
    (hus : ∀ l ∈ us, IsWholeLine l) :
    us.flatten.count '\n' = us.length := by
  induction us with
  | nil =>
      rfl
  | cons l us ih =>
      rw [List.forall_mem_cons] at hus
      obtain ⟨⟨body, hbody, rfl⟩, htail⟩ := hus
      have hzero : body.count '\n' = 0 := List.count_eq_zero.mpr hbody
      simp [ih htail, hzero]

theorem wholeLines_flatten
    {us : List (List Char)}
    (hus : ∀ l ∈ us, IsWholeLine l) :
    WholeLines us.flatten := by
  rcases List.eq_nil_or_concat us with rfl | ⟨us, l, rfl⟩
  · exact .inl rfl
  · obtain ⟨body, _, rfl⟩ := hus l (by simp)
    exact .inr (by simp [← List.append_assoc])

/-- A line without its end has no line feed. -/
theorem lineFeed_notMem_chomp
    {raw : List Char}
    (hraw : IsWholeLine raw ∨ '\n' ∉ raw) :
    '\n' ∉ chomp raw := by
  have hbegins (cs : List Char) : chomp cs <+: cs := List.rdropWhile_prefix _ _
  rcases hraw with ⟨body, hbody, rfl⟩ | hraw
  · have hbefore : chomp (body ++ ['\n']) = chomp body := List.rdropWhile_concat_pos _ _ _ rfl
    rw [hbefore]
    exact fun hmem => hbody ((hbegins body).subset hmem)
  · exact fun hmem => hraw ((hbegins raw).subset hmem)

theorem WholeLines.of_cons
    {c : Char}
    {u : List Char}
    (h : WholeLines (c :: u)) :
    WholeLines u := by
  cases u with
  | nil =>
      exact .inl rfl
  | cons d u =>
      simpa [WholeLines] using h

/-- Whole lines that start with another character than a line feed have a first line. -/
theorem WholeLines.exists_lines
    {c : Char}
    {u : List Char}
    (h : WholeLines (c :: u))
    (hc : c ≠ '\n') :
    ∃ l ls, lines u = l :: ls := by
  cases u with
  | nil =>
      simp [WholeLines, hc] at h
  | cons d u =>
      cases hlines : lines (d :: u) with
      | nil =>
          have hflatten := flatten_lines (d :: u)
          simp [hlines] at hflatten
      | cons l ls =>
          exact ⟨l, ls, rfl⟩

/-- After whole lines a text is cut into lines as on its own. -/
theorem lines_append
    {u : List Char}
    (hu : WholeLines u)
    (v : List Char) :
    lines (u ++ v) = lines u ++ lines v := by
  induction u with
  | nil =>
      rfl
  | cons c u ih =>
      have happend := ih hu.of_cons
      by_cases hc : c = '\n'
      · simp [lines, hc, happend]
      · obtain ⟨l, ls, hlines⟩ := hu.exists_lines hc
        rw [hlines] at happend
        simp [lines, hc, hlines, happend]

/-- There are as many whole lines as line feeds. -/
theorem length_lines
    {u : List Char}
    (hu : WholeLines u) :
    (lines u).length = u.count '\n' := by
  induction u with
  | nil =>
      rfl
  | cons c u ih =>
      have hlength := ih hu.of_cons
      by_cases hc : c = '\n'
      · simp [lines, hc, hlength]
      · obtain ⟨l, ls, hlines⟩ := hu.exists_lines hc
        rw [hlines] at hlength
        simp [lines, hc, hlines, ← hlength]

end Text
end GraphMachine
