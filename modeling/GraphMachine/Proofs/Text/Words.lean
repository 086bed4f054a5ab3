import GraphMachine.Text.Cut
import GraphMachine.Text.Whitespace
import Mathlib

/-!
# Words and runs

Gaps, numerals, identifiers and other words as predicates on texts, and where such a run ends.
None of them has a parenthesis in it.
-/

namespace GraphMachine
namespace Text

/-- Gaps alone, possibly none. -/
def Gaps (cs : List Char) : Prop :=
  ∀ c ∈ cs, isGap c = true

/-- A row of digits, at least one. -/
def IsNumeral (w : List Char) : Prop :=
  w ≠ [] ∧ ∀ c ∈ w, c.isDigit = true

/-- A word that starts with a letter or an underscore. -/
def IsIdentifier : List Char → Prop
  | [] => False
  | c :: cs => isWordStart c = true ∧ ∀ d ∈ cs, isWordChar d = true

instance (cs : List Char) : Decidable (Gaps cs) :=
  List.decidableBAll (fun c => isGap c = true) cs

instance (w : List Char) : Decidable (IsNumeral w) :=
  @instDecidableAnd _ _ inferInstance (List.decidableBAll (fun c => c.isDigit = true) w)

instance : (w : List Char) → Decidable (IsIdentifier w)
  | [] => inferInstanceAs (Decidable False)
  | _ :: cs =>
      @instDecidableAnd _ _ inferInstance (List.decidableBAll (fun d => isWordChar d = true) cs)

theorem gaps_nil :
    Gaps [] := by
  simp [Gaps]

theorem Gaps.append
    {u v : List Char}
    (hu : Gaps u)
    (hv : Gaps v) :
    Gaps (u ++ v) := by
  intro c hc
  rcases List.mem_append.mp hc with hc | hc
  · exact hu c hc
  · exact hv c hc

/-- Every letter of a numeral is a word character. -/
theorem IsNumeral.isWordChar
    {w : List Char}
    (hw : IsNumeral w) :
    ∀ c ∈ w, Text.isWordChar c = true := by
  intro c hc
  have hdigit := hw.2 c hc
  simp [Text.isWordChar, Char.isAlphanum, hdigit]

theorem IsIdentifier.ne_nil
    {w : List Char}
    (hw : IsIdentifier w) :
    w ≠ [] := by
  rintro rfl
  exact hw

/-- Every letter of an identifier is a word character. -/
theorem IsIdentifier.isWordChar
    {w : List Char}
    (hw : IsIdentifier w) :
    ∀ c ∈ w, Text.isWordChar c = true := by
  cases w with
  | nil =>
      exact hw.elim
  | cons d ds =>
      obtain ⟨hstart, hrest⟩ := hw
      intro c hc
      rcases List.mem_cons.mp hc with rfl | hc
      · simp only [isWordStart, Bool.or_eq_true] at hstart
        simp only [Text.isWordChar, Char.isAlphanum, Bool.or_eq_true]
        rcases hstart with h | h
        · exact Or.inl (Or.inl h)
        · exact Or.inr h
      · exact hrest c hc

/-- The text does not go on with a word character. -/
def Stops (rest : List Char) : Prop :=
  ∀ c ∈ rest.head?, isWordChar c = false

theorem stops_nil :
    Stops [] := by
  simp [Stops]

theorem stops_cons
    {c : Char}
    {cs : List Char}
    (hc : isWordChar c = false) :
    Stops (c :: cs) := by
  intro d hd
  simp only [List.head?_cons, Option.mem_some_iff] at hd
  subst hd
  exact hc

theorem isWordChar_of_isGap
    {c : Char}
    (hc : isGap c = true) :
    isWordChar c = false := by
  simp only [isGap, isBlank, Bool.or_eq_true, beq_iff_eq] at hc
  rcases hc with ((hc | hc) | hc) | hc <;> subst hc <;> decide

/-- Gaps before a text that stops stop, too. -/
theorem Gaps.stops_append
    {u rest : List Char}
    (hu : Gaps u)
    (hrest : Stops rest) :
    Stops (u ++ rest) := by
  cases u with
  | nil =>
      exact hrest
  | cons c u =>
      exact stops_cons (isWordChar_of_isGap (hu c (by simp)))

/-- The longest run of a class is found if the text goes on with another character. -/
theorem takeWhile_append_of_head
    {p : Char → Bool}
    {w rest : List Char}
    (hw : ∀ c ∈ w, p c = true)
    (hrest : ∀ c ∈ rest.head?, p c = false) :
    (w ++ rest).takeWhile p = w := by
  rw [List.takeWhile_append_of_pos hw]
  cases rest with
  | nil =>
      simp
  | cons c rest =>
      have hc : p c = false := hrest c (by simp)
      simp [hc]

theorem dropWhile_append_of_head
    {p : Char → Bool}
    {w rest : List Char}
    (hw : ∀ c ∈ w, p c = true)
    (hrest : ∀ c ∈ rest.head?, p c = false) :
    (w ++ rest).dropWhile p = rest := by
  rw [List.dropWhile_append_of_pos hw]
  cases rest with
  | nil =>
      simp
  | cons c rest =>
      have hc : p c = false := hrest c (by simp)
      simp [hc]

/-- A text that starts with a run of a class is put together in one way only. -/
theorem append_inj_of_head
    {p : Char → Bool}
    {w w' rest rest' : List Char}
    (hw : ∀ c ∈ w, p c = true)
    (hrest : ∀ c ∈ rest.head?, p c = false)
    (hw' : ∀ c ∈ w', p c = true)
    (hrest' : ∀ c ∈ rest'.head?, p c = false)
    (h : w ++ rest = w' ++ rest') :
    w = w' ∧ rest = rest' := by
  have htake := takeWhile_append_of_head hw hrest
  have hdrop := dropWhile_append_of_head hw hrest
  rw [h, takeWhile_append_of_head hw' hrest'] at htake
  rw [h, dropWhile_append_of_head hw' hrest'] at hdrop
  exact ⟨htake.symm, hdrop.symm⟩

theorem Stops.isDigit
    {rest : List Char}
    (hrest : Stops rest) :
    ∀ c ∈ rest.head?, c.isDigit = false := by
  intro c hc
  have hword := hrest c hc
  simp only [isWordChar, Char.isAlphanum, Bool.or_eq_false_iff] at hword
  exact hword.1.2

theorem isGap_of_isWordChar
    {c : Char}
    (hc : isWordChar c = true) :
    isGap c = false := by
  cases hgap : isGap c with
  | false =>
      rfl
  | true =>
      have hword := isWordChar_of_isGap hgap
      rw [hc] at hword
      exact absurd hword (by decide)

/-- No parenthesis stands in the text. -/
def NoParens (w : List Char) : Prop :=
  ∀ c ∈ w, c ≠ '(' ∧ c ≠ ')'

theorem NoParens.append
    {u v : List Char}
    (hu : NoParens u)
    (hv : NoParens v) :
    NoParens (u ++ v) := by
  intro c hc
  rcases List.mem_append.mp hc with hc | hc
  · exact hu c hc
  · exact hv c hc

theorem NoParens.cons
    {c : Char}
    {w : List Char}
    (hc : c ≠ '(' ∧ c ≠ ')')
    (hw : NoParens w) :
    NoParens (c :: w) := by
  intro d hd
  rcases List.mem_cons.mp hd with rfl | hd
  · exact hc
  · exact hw d hd

theorem noParens_of_isWordChar
    {w : List Char}
    (hw : ∀ c ∈ w, isWordChar c = true) :
    NoParens w := by
  intro c hc
  have hword := hw c hc
  constructor
  · rintro rfl
    exact absurd hword (by decide)
  · rintro rfl
    exact absurd hword (by decide)

theorem Gaps.noParens
    {u : List Char}
    (hu : Gaps u) :
    NoParens u := by
  intro c hc
  have hgap := hu c hc
  constructor
  · rintro rfl
    exact absurd hgap (by decide)
  · rintro rfl
    exact absurd hgap (by decide)

theorem NoParens.count_eq
    {w : List Char}
    (hw : NoParens w) :
    w.count '(' = 0 ∧ w.count ')' = 0 :=
  ⟨List.count_eq_zero.mpr fun h => (hw _ h).1 rfl, List.count_eq_zero.mpr fun h => (hw _ h).2 rfl⟩

/-- Letters and the underscore lie between the capital A and the small Z. -/
theorem toNat_of_isWordStart
    {c : Char}
    (hc : isWordStart c = true) :
    65 ≤ c.toNat ∧ c.toNat ≤ 122 := by
  simp only [isWordStart, Char.isAlpha, Char.isUpper, Char.isLower, Bool.or_eq_true,
    Bool.and_eq_true, decide_eq_true_eq, beq_iff_eq, UInt32.le_iff_toNat_le] at hc
  have hcode : c.toNat = c.val.toNat := rfl
  have hA : 'A'.val.toNat = 65 := rfl
  have hZ : 'Z'.val.toNat = 90 := rfl
  have ha : 'a'.val.toNat = 97 := rfl
  have hz : 'z'.val.toNat = 122 := rfl
  rcases hc with (hc | hc) | hc
  · omega
  · omega
  · subst hc
    decide

/-- A character that starts an identifier is no digit. -/
theorem isDigit_of_isWordStart
    {c : Char}
    (hc : isWordStart c = true) :
    c.isDigit = false := by
  have hcode : c.toNat = c.val.toNat := rfl
  have h9 : '9'.val.toNat = 57 := rfl
  have hrange := toNat_of_isWordStart hc
  simp only [Char.isDigit, Bool.and_eq_false_iff, decide_eq_false_iff_not,
    UInt32.le_iff_toNat_le]
  omega

/-- A character that starts an identifier is no white space. -/
theorem isWhite_of_isWordStart
    {c : Char}
    (hc : isWordStart c = true) :
    isWhite c = false := by
  have hrange := toNat_of_isWordStart hc
  simp only [isWhite, Bool.or_eq_false_iff, Bool.and_eq_false_iff, decide_eq_false_iff_not,
    beq_eq_false_iff_ne]
  omega

theorem head_dropWhile
    (p : Char → Bool)
    (cs : List Char) :
    ∀ c ∈ (cs.dropWhile p).head?, p c = false := by
  intro c hc
  have hhead := List.head?_dropWhile_not p cs
  rw [Option.mem_def.mp hc] at hhead
  exact hhead

/-- A word whose first character is of the given class. -/
def IsWord (isStart : Char → Bool) : List Char → Prop
  | [] => False
  | c :: cs => isStart c = true ∧ ∀ d ∈ cs, isWordChar d = true

instance (isStart : Char → Bool) : (w : List Char) → Decidable (IsWord isStart w)
  | [] => inferInstanceAs (Decidable False)
  | _ :: cs =>
      @instDecidableAnd _ _ inferInstance (List.decidableBAll (fun d => isWordChar d = true) cs)

theorem IsWord.isWordChar
    {isStart : Char → Bool}
    {w : List Char}
    (hstart : ∀ c, isStart c = true → Text.isWordChar c = true)
    (hw : IsWord isStart w) :
    ∀ c ∈ w, Text.isWordChar c = true := by
  cases w with
  | nil => exact hw.elim
  | cons c w => exact List.forall_mem_cons.mpr ⟨hstart c hw.1, hw.2⟩

/-- The word at the start of a text ends where no word character follows. -/
theorem word?_eq_some_iff
    {isStart : Char → Bool}
    {cs w rest : List Char} :
    word? isStart cs = some (w, rest) ↔ IsWord isStart w ∧ Stops rest ∧ cs = w ++ rest := by
  constructor
  · intro h
    cases cs with
    | nil =>
        cases h
    | cons c cs =>
        simp only [word?, Option.ite_none_right_eq_some, Option.some.injEq, Prod.mk.injEq] at h
        obtain ⟨hc, rfl, rfl⟩ := h
        refine ⟨⟨hc, fun d hd => List.mem_takeWhile_imp hd⟩, head_dropWhile isWordChar cs, ?_⟩
        rw [List.cons_append, List.takeWhile_append_dropWhile]
  · rintro ⟨hw, hrest, rfl⟩
    cases w with
    | nil =>
        exact hw.elim
    | cons c w =>
        rw [List.cons_append, word?, if_pos hw.1, takeWhile_append_of_head hw.2 hrest,
          dropWhile_append_of_head hw.2 hrest]

theorem take_length_takeWhile
    (p : Char → Bool)
    (cs : List Char) :
    cs.take (cs.takeWhile p).length = cs.takeWhile p := by
  exact (List.prefix_iff_eq_take.mp (List.takeWhile_prefix p)).symm

end Text
end GraphMachine
