import GraphMachine.Proofs.Text.Cuts

/-!
# Blanks

Spaces and tabs pad the parts of a text.  They are skipped before a part and trimmed around it.
-/

namespace GraphMachine
namespace Text

/-- Blanks alone, possibly none. -/
def Blanks (cs : List Char) : Prop :=
  ∀ c ∈ cs, isBlank c = true

instance (cs : List Char) : Decidable (Blanks cs) :=
  List.decidableBAll (fun c => isBlank c = true) cs

theorem Blanks.gaps
    {cs : List Char}
    (hcs : Blanks cs) :
    Gaps cs := by
  intro c hc
  exact isGap_of_isBlank (hcs c hc)

theorem Blanks.append
    {a b : List Char}
    (ha : Blanks a)
    (hb : Blanks b) :
    Blanks (a ++ b) :=
  List.forall_mem_append.mpr ⟨ha, hb⟩

theorem isBlank_of_isWordChar
    {c : Char}
    (hc : isWordChar c = true) :
    isBlank c = false := by
  have hgap := isGap_of_isWordChar hc
  simp only [isGap, Bool.or_eq_false_iff] at hgap
  exact hgap.1.1

/-- Blanks are skipped up to the next other character. -/
theorem skipBlanks_append_cons
    {a : List Char}
    {c : Char}
    (ha : Blanks a)
    (hc : isBlank c = false)
    (cs : List Char) :
    skipBlanks (a ++ c :: cs) = c :: cs := by
  apply dropWhile_append_of_head ha
  intro d hd
  simp only [List.head?_cons, Option.mem_some_iff] at hd
  subst hd
  exact hc

/-- A text with blanks around it. -/
def Padded (w text : List Char) : Prop :=
  ∃ a b, Blanks a ∧ Blanks b ∧ text = a ++ (w ++ b)

theorem padded_self
    (w : List Char) :
    Padded w w :=
  ⟨[], [], by decide, by decide, by simp⟩

theorem Blanks.isWhite
    {a : List Char}
    (ha : Blanks a) :
    ∀ c ∈ a, isWhite c = true :=
  fun c hc => isWhite_of_isGap (ha.gaps c hc)

theorem Blanks.notMem
    {a : List Char}
    (ha : Blanks a)
    {c : Char}
    (hc : isBlank c = false) :
    c ∉ a := by
  intro hmem
  rw [ha c hmem] at hc
  cases hc

theorem skipBlanks_of_blanks
    {a : List Char}
    (ha : Blanks a) :
    skipBlanks a = [] :=
  List.dropWhile_eq_nil_iff.mpr ha

theorem skipBlanks_append
    {a : List Char}
    (ha : Blanks a)
    (rest : List Char) :
    skipBlanks (a ++ rest) = skipBlanks rest :=
  List.dropWhile_append_of_pos ha

theorem Padded.notMem
    {w text : List Char}
    (h : Padded w text)
    {c : Char}
    (hc : isBlank c = false)
    (hw : c ∉ w) :
    c ∉ text := by
  obtain ⟨a, b, ha, hb, rfl⟩ := h
  simp [ha.notMem hc, hw, hb.notMem hc]

theorem Padded.trim_eq
    {w text : List Char}
    (h : Padded w text)
    (hw : Trimmed w) :
    trim text = w := by
  obtain ⟨a, b, ha, hb, rfl⟩ := h
  exact trim_append ha.isWhite hw hb.isWhite

end Text
end GraphMachine
