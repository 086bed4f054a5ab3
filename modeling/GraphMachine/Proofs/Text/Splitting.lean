import GraphMachine.Proofs.Text.Blanks

/-!
# What cuts give

Every function that cuts a text is described by the parts that it gives, put together again: the cut
at the first and at the last occurrence of a character, the pieces between all occurrences, the text
without the blanks before it, the text without the white space around it and the text without its
quotes.  In each case the parts are unique, so the description is an equivalence.
-/

namespace GraphMachine
namespace Text

section Cuts

variable {d : Char}
variable {cs u v : List Char}

theorem exists_last_occurrence
    (h : d ∈ cs) :
    ∃ u v, cs = u ++ d :: v ∧ d ∉ v := by
  obtain ⟨u, v, heq, hu⟩ := List.eq_append_cons_of_mem (List.mem_reverse.mpr h)
  refine ⟨v.reverse, u.reverse, ?_, by simpa using hu⟩
  rw [← List.reverse_reverse cs, heq]
  simp

theorem cutFirst_eq_none
    (h : d ∉ cs) :
    cutFirst d cs = none := by
  induction cs with
  | nil =>
      rfl
  | cons c cs ih =>
      rw [List.mem_cons, not_or] at h
      simp [cutFirst, Ne.symm h.1, ih h.2]

/-- A text is cut before the first occurrence. -/
theorem cutFirst_eq_some_iff :
    cutFirst d cs = some (u, v) ↔ d ∉ u ∧ cs = u ++ d :: v := by
  constructor
  · intro h
    by_cases hmem : d ∈ cs
    · obtain ⟨u', v', rfl, hu'⟩ := List.eq_append_cons_of_mem hmem
      rw [cutFirst_append hu'] at h
      cases h
      exact ⟨hu', rfl⟩
    · rw [cutFirst_eq_none hmem] at h
      cases h
  · rintro ⟨hu, rfl⟩
    exact cutFirst_append hu v

/-- A text is cut after the last occurrence. -/
theorem cutLast_eq_some_iff :
    cutLast d cs = some (u, v) ↔ d ∉ v ∧ cs = u ++ d :: v := by
  constructor
  · intro h
    by_cases hmem : d ∈ cs
    · obtain ⟨u', v', rfl, hv'⟩ := exists_last_occurrence hmem
      rw [cutLast_append u' hv'] at h
      cases h
      exact ⟨hv', rfl⟩
    · rw [cutLast_eq_none hmem] at h
      cases h
  · rintro ⟨hv, rfl⟩
    exact cutLast_append u hv

theorem notMem_of_cutFirst
    (h : cutFirst d cs = none) :
    d ∉ cs := by
  intro hmem
  obtain ⟨u, v, rfl, hu⟩ := List.eq_append_cons_of_mem hmem
  rw [cutFirst_append hu] at h
  cases h

theorem notMem_of_cutLast
    (h : cutLast d cs = none) :
    d ∉ cs := by
  intro hmem
  obtain ⟨u, v, rfl, hv⟩ := exists_last_occurrence hmem
  rw [cutLast_append u hv] at h
  cases h

end Cuts

section Pieces

/-- Pieces with a character between them that is in none of them. -/
inductive Splits (d : Char) : List Char → List (List Char) → Prop
  | last
      {p : List Char}
      (hp : d ∉ p) :
      Splits d p [p]
  | more
      {p cs : List Char}
      {ps : List (List Char)}
      (hp : d ∉ p)
      (hps : Splits d cs ps) :
      Splits d (p ++ d :: cs) (p :: ps)

variable {d : Char}
variable {cs : List Char}
variable {ps : List (List Char)}

theorem Splits.cons
    {p : List Char}
    (h : Splits d cs (p :: ps))
    {c : Char}
    (hc : c ≠ d) :
    Splits d (c :: cs) ((c :: p) :: ps) := by
  cases h with
  | last hp => exact .last (by simp [hp, Ne.symm hc])
  | more hp hps => exact .more (p := c :: p) (by simp [hp, Ne.symm hc]) hps

theorem splits_pieces
    (d : Char)
    (cs : List Char) :
    Splits d cs (pieces d cs) := by
  induction cs with
  | nil =>
      exact .last List.not_mem_nil
  | cons c cs ih =>
      unfold pieces
      split
      · next hc =>
          rw [hc]
          exact .more (p := []) List.not_mem_nil ih
      · next hc =>
          cases hps : pieces d cs with
          | nil =>
              rw [hps] at ih
              cases ih
          | cons p ps =>
              rw [hps] at ih
              exact ih.cons hc

/-- A text is split in one way only. -/
theorem splits_iff :
    Splits d cs ps ↔ pieces d cs = ps := by
  constructor
  · intro h
    induction h with
    | last hp => exact pieces_eq_singleton hp
    | more hp _ ih => rw [pieces_append hp, ih]
  · rintro rfl
    exact splits_pieces d cs

/-- A text is split into the parts that it was put together from. -/
theorem splits_append_flatMap
    {p : List Char}
    (hp : d ∉ p)
    (hps : ∀ q ∈ ps, d ∉ q) :
    Splits d (p ++ ps.flatMap (d :: ·)) (p :: ps) := by
  induction ps generalizing p with
  | nil => simpa using Splits.last hp
  | cons q ps ih =>
      obtain ⟨hq, hps⟩ := List.forall_mem_cons.mp hps
      exact .more hp (ih hq hps)

end Pieces

section Trimming

variable {cs w : List Char}

/-- A text goes on after some blanks, and not with a blank. -/
def Skips (cs rest : List Char) : Prop :=
  ∃ a, Blanks a ∧ cs = a ++ rest ∧ ∀ c ∈ rest.head?, isBlank c = false

/-- A text has white space around its inner part, which has none at its ends. -/
def Trims (cs w : List Char) : Prop :=
  ∃ a b,
    (∀ c ∈ a, isWhite c = true) ∧
    (∀ c ∈ b, isWhite c = true) ∧
    cs = a ++ (w ++ b) ∧
    Trimmed w

theorem skips_iff
    {rest : List Char} :
    Skips cs rest ↔ skipBlanks cs = rest := by
  constructor
  · rintro ⟨a, ha, rfl, hrest⟩
    exact dropWhile_append_of_head ha hrest
  · rintro rfl
    exact ⟨cs.takeWhile isBlank, fun c hc => List.mem_takeWhile_imp hc,
      List.takeWhile_append_dropWhile.symm, head_dropWhile isBlank cs⟩

theorem getLast_trimEnd
    (cs : List Char) :
    ∀ c ∈ (trimEnd cs).getLast?, isWhite c = false := by
  intro c hc
  rw [trimEnd, dropEndWhile, List.getLast?_reverse] at hc
  exact head_dropWhile isWhite cs.reverse c hc

theorem exists_eq_trimEnd_append
    (cs : List Char) :
    ∃ b, (∀ c ∈ b, isWhite c = true) ∧ cs = trimEnd cs ++ b := by
  refine ⟨(cs.reverse.takeWhile isWhite).reverse, ?_, ?_⟩
  · intro c hc
    exact List.mem_takeWhile_imp (List.mem_reverse.mp hc)
  · rw [trimEnd, dropEndWhile, ← List.reverse_append, List.takeWhile_append_dropWhile,
      List.reverse_reverse]

theorem trimmed_trim
    (cs : List Char) :
    Trimmed (trim cs) where
  head := by
    intro c hc
    obtain ⟨b, -, hb⟩ := exists_eq_trimEnd_append (trimStart cs)
    have hhead : c ∈ (trimStart cs).head? := by
      rw [hb, List.head?_append, Option.mem_def, Option.or_eq_some_iff]
      exact .inl hc
    exact head_dropWhile isWhite cs c hhead
  last := getLast_trimEnd (trimStart cs)

/-- Trimming gives the inner part. -/
theorem trims_iff :
    Trims cs w ↔ trim cs = w := by
  constructor
  · rintro ⟨a, b, ha, hb, rfl, hw⟩
    exact trim_append ha hw hb
  · rintro rfl
    obtain ⟨b, hb, heq⟩ := exists_eq_trimEnd_append (trimStart cs)
    refine ⟨cs.takeWhile isWhite, b, fun c hc => List.mem_takeWhile_imp hc, hb, ?_, trimmed_trim cs⟩
    rw [trim, ← heq]
    exact List.takeWhile_append_dropWhile.symm

theorem Trimmed.trim_eq
    (hw : Trimmed w) :
    trim w = w :=
  (padded_self w).trim_eq hw

/-- Trimming takes characters away and adds none. -/
theorem mem_of_mem_trim
    {c : Char}
    (h : c ∈ trim cs) :
    c ∈ cs := by
  obtain ⟨a, b, -, -, heq, -⟩ : Trims cs (trim cs) := trims_iff.mpr rfl
  rw [heq]
  exact List.mem_append_right a (List.mem_append_left b h)

end Trimming

section Quotes

variable {cs w : List Char}

/-- A text is the other one between two equal quotes, which are double or single. -/
def Quotes (w cs : List Char) : Prop :=
  ∃ q, (q = '"' ∨ q = '\'') ∧ cs = q :: (w ++ [q])

theorem unquoteBy?_eq_some_iff
    {q : Char} :
    unquoteBy? q cs = some w ↔ cs = q :: (w ++ [q]) := by
  constructor
  · intro h
    unfold unquoteBy? at h
    split at h
    · cases h
    · next c rest =>
        split at h
        · next hc =>
            split at h
            · cases h
            · next d ds hreverse =>
                split at h
                · next hd =>
                    cases h
                    have hrest : rest = (d :: ds).reverse := by
                      rw [← hreverse, List.reverse_reverse]
                    rw [hc, hrest, hd, List.reverse_cons]
                · cases h
        · cases h
  · rintro rfl
    simp [unquoteBy?]

/-- Quotes are taken away where a text stands between two of them. -/
theorem quotes_iff :
    Quotes w cs ↔ unquote? cs = some w := by
  unfold unquote? Quotes
  rw [Option.or_eq_some_iff, unquoteBy?_eq_some_iff, unquoteBy?_eq_some_iff]
  constructor
  · rintro ⟨q, rfl | rfl, rfl⟩
    · exact .inl rfl
    · exact .inr ⟨by simp [unquoteBy?], rfl⟩
  · rintro (rfl | ⟨-, rfl⟩)
    · exact ⟨_, .inl rfl, rfl⟩
    · exact ⟨_, .inr rfl, rfl⟩

/-- A text without the quotes around it, if it has such quotes. -/
def Unquotes (cs w : List Char) : Prop :=
  Quotes w cs ∨ (w = cs ∧ ∀ w', ¬ Quotes w' cs)

theorem unquotes_iff :
    Unquotes cs w ↔ (unquote? cs).getD cs = w := by
  unfold Unquotes
  simp only [quotes_iff]
  cases hquotes : unquote? cs with
  | none => simp [eq_comm]
  | some w' => simp

end Quotes

end Text
end GraphMachine
