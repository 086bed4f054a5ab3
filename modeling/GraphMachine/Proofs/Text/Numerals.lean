import GraphMachine.Proofs.Text.Words
import GraphMachine.Text.Decimal

/-!
# Written numbers

The decimal form of a number is a numeral that denotes the number, and a word is read back from
every numeral, with or without a sign, that denotes it.  A numeral that denotes no word is not read.
-/

namespace GraphMachine
namespace Decimal

open Text

theorem isNumeral_toDigits
    (n : Nat) :
    IsNumeral (Nat.toDigits 10 n) := by
  refine ⟨Nat.toDigits_ne_nil, ?_⟩
  intro c hc
  exact Nat.isDigit_of_mem_toDigits (by decide) (by decide) hc

@[simp] theorem value_toDigits
    (n : Nat) :
    value (Nat.toDigits 10 n) = n := by
  have hvalue : value (Nat.toDigits 10 n) = Nat.ofDigitChars 10 (Nat.toDigits 10 n) 0 := by
    rw [Nat.ofDigitChars_eq_foldl]
    rfl
  rw [hvalue, Nat.ofDigitChars_ten_toDigits]

theorem lt_zero_iff
    (v : Int64) :
    v < 0 ↔ v.toInt < 0 := by
  have hzero : (0 : Int64).toInt = 0 := by decide
  rw [Int64.lt_iff_toInt_lt, hzero]

/-- A word that is not negative is written as a numeral. -/
theorem toList_ofWord
    {n : Nat}
    {v : Int64}
    (hv : v.toInt = n) :
    (ofWord v).toList = Nat.toDigits 10 n := by
  have htext : ofWord v = n.repr := by
    rw [ofWord, hv]
    rfl
  rw [htext, Nat.toList_repr]

/-- A negative word is written as a minus sign and a numeral. -/
theorem toList_ofWord_neg
    {n : Nat}
    {v : Int64}
    (hv : v.toInt = -n)
    (hn : 0 < n) :
    (ofWord v).toList = '-' :: Nat.toDigits 10 n := by
  obtain ⟨k, rfl⟩ : ∃ k, n = k + 1 := ⟨n - 1, by omega⟩
  have htext : ofWord v = "-" ++ (k + 1).repr := by
    rw [ofWord, hv]
    rfl
  rw [htext, String.toList_append, Nat.toList_repr]
  rfl

/-- A word is written with digits and perhaps a minus sign. -/
theorem isDigit_of_mem_ofWord
    {v : Int64}
    {c : Char}
    (hc : c ∈ (ofWord v).toList)
    (hsign : c ≠ '-') :
    c.isDigit = true := by
  have hdigits {n : Nat} (h : c ∈ n.repr.toList) : c.isDigit = true := by
    rw [Nat.toList_repr] at h
    exact (isNumeral_toDigits n).2 c h
  unfold ofWord ofInt at hc
  split at hc
  · exact hdigits hc
  · rw [String.toList_append, List.mem_append] at hc
    rcases hc with hc | hc
    · exact absurd (by simpa using hc) hsign
    · exact hdigits hc

theorem notMem_ofWord
    {c : Char}
    (hdigit : c.isDigit = false)
    (hsign : c ≠ '-')
    (v : Int64) :
    c ∉ (ofWord v).toList := by
  intro hmem
  have hc := isDigit_of_mem_ofWord hmem hsign
  rw [hdigit] at hc
  cases hc

theorem ofNat_eq_of_toInt
    {n : Nat}
    {v : Int64}
    (hv : v.toInt = n) :
    Int64.ofNat n = v := by
  rw [← Int64.ofInt_eq_ofNat, ← hv, Int64.ofInt_toInt]

theorem word?_eq_some
    {n : Nat}
    {v : Int64}
    (hv : v.toInt = n) :
    word? n = some v := by
  have hlt := v.toInt_lt
  have hbound : n < wordBound := by
    rw [wordBound]
    omega
  simp only [word?, hbound, if_true, ofNat_eq_of_toInt hv]

theorem negativeWord?_eq_some
    {n : Nat}
    {v : Int64}
    (hv : v.toInt = -n) :
    negativeWord? n = some v := by
  have hle := v.le_toInt
  have hbound : n ≤ wordBound := by
    rw [wordBound]
    omega
  simp only [negativeWord?, hbound, if_true, Option.some.injEq]
  rw [← hv, Int64.ofInt_toInt]

/-- The number that a row of digits with an optional sign denotes, whatever its size. -/
def signedValue : List Char → Int
  | '-' :: digits => -value digits
  | '+' :: digits => value digits
  | digits => value digits

/-- A numeral without a sign denotes its value. -/
theorem signedValue_of_isNumeral
    {w : List Char}
    (hw : IsNumeral w) :
    signedValue w = value w := by
  unfold signedValue
  split
  · exact absurd (hw.2 '-' (by simp)) (by decide)
  · exact absurd (hw.2 '+' (by simp)) (by decide)
  · rfl

/-- The number is a word. -/
def FitsWord (n : Int) : Prop :=
  -wordBound ≤ n ∧ n < wordBound

instance (n : Int) : Decidable (FitsWord n) :=
  inferInstanceAs (Decidable (_ ∧ _))

theorem word?_eq_some_iff
    {n : Nat}
    {v : Int64} :
    word? n = some v ↔ v.toInt = n := by
  constructor
  · intro h
    unfold word? at h
    split at h
    · next hbound =>
        cases h
        exact Int64.toInt_ofNat_of_lt hbound
    · cases h
  · exact word?_eq_some

theorem negativeWord?_eq_some_iff
    {n : Nat}
    {v : Int64} :
    negativeWord? n = some v ↔ v.toInt = -n := by
  constructor
  · intro h
    unfold negativeWord? at h
    split at h
    · next hbound =>
        cases h
        rw [wordBound] at hbound
        exact Int64.toInt_ofInt_of_le (by omega) (by omega)
    · cases h
  · exact negativeWord?_eq_some

/-- A literal is read as the word that it denotes. -/
theorem signed?_eq_some_iff
    {w : List Char}
    {v : Int64} :
    signed? w = some v ↔ v.toInt = signedValue w := by
  unfold signed?
  split
  · exact negativeWord?_eq_some_iff
  · exact word?_eq_some_iff
  · next hminus hplus =>
      have hvalue : signedValue w = value w := by
        unfold signedValue
        split
        · exact absurd rfl (hminus _)
        · exact absurd rfl (hplus _)
        · rfl
      rw [hvalue]
      exact word?_eq_some_iff

theorem signed?_eq_none_iff
    {w : List Char} :
    signed? w = none ↔ ¬ FitsWord (signedValue w) := by
  constructor
  · rintro hnone ⟨hlow, hhigh⟩
    have hword : (Int64.ofInt (signedValue w)).toInt = signedValue w :=
      Int64.toInt_ofInt_of_le hlow hhigh
    rw [signed?_eq_some_iff.mpr hword] at hnone
    cases hnone
  · intro hfits
    cases h : signed? w with
    | none => rfl
    | some v =>
        have hv := signed?_eq_some_iff.mp h
        have hlow := v.le_toInt
        have hhigh := v.toInt_lt
        rw [hv] at hlow hhigh
        exact absurd ⟨hlow, hhigh⟩ hfits

/-- A word is read back from its decimal form. -/
theorem signed?_ofWord
    (v : Int64) :
    signed? (ofWord v).toList = some v := by
  rw [signed?_eq_some_iff]
  by_cases hsign : 0 ≤ v.toInt
  · obtain ⟨n, hn⟩ := Int.eq_ofNat_of_zero_le hsign
    rw [toList_ofWord hn, signedValue_of_isNumeral (isNumeral_toDigits n), value_toDigits, hn]
  · obtain ⟨n, hn⟩ : ∃ n : Nat, v.toInt = -n := ⟨v.toInt.natAbs, by omega⟩
    rw [toList_ofWord_neg hn (by omega), hn, signedValue, value_toDigits]

theorem ofWord_injective :
    Function.Injective ofWord := by
  intro v w h
  have hread := signed?_ofWord v
  rw [h, signed?_ofWord] at hread
  exact (Option.some.inj hread).symm

end Decimal
end GraphMachine
