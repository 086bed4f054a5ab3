import Mathlib

/-!
# The order of bytes

Texts are compared character by character, by code point.  Comparing their bytes gives the same
order.  The bytes of a character are its code point in digits to the base 64, the highest one first,
with marks that tell how many digits there are; more digits have a higher mark.  So a character with
a lower code point has lower bytes at the first place where the bytes differ.
-/

namespace GraphMachine
namespace Text

def bytes (s : String) : List UInt8 :=
  s.toUTF8.data.toList

theorem bytes_eq_flatMap
    (s : String) :
    bytes s = s.toList.flatMap String.utf8EncodeChar := by
  have hencode : s.toUTF8 = s.toList.utf8Encode := by
    rw [← String.toByteArray_ofList, String.ofList_toList]
    rfl
  rw [bytes, hencode, List.utf8Encode, List.data_toByteArray]

section Characters

variable {p q : List UInt8}
variable {v w : Nat}

/-- Bytes of numbers in the order of the numbers, whatever bytes follow. -/
structure Ascending (p q : List UInt8) (v w : Nat) : Prop where
  lt : v < w → ∀ xs ys, p ++ xs < q ++ ys
  eq : v = w → p = q

theorem ofNat_cons_lt
    {a b : Nat}
    (hlt : a < b)
    (hb : b < 256)
    (xs ys : List UInt8) :
    UInt8.ofNat a :: xs < UInt8.ofNat b :: ys := by
  rw [List.cons_lt_cons_iff, UInt8.lt_iff_toNat_lt, UInt8.toNat_ofNat_of_lt' (hlt.trans hb),
    UInt8.toNat_ofNat_of_lt' hb]
  exact .inl hlt

/-- The first digit with its mark. -/
theorem ascending_lead
    {base mark : Nat}
    (hv : v < base)
    (hw : w < base)
    (hmark : base + mark ≤ 256) :
    Ascending [UInt8.ofNat (v % base + mark)] [UInt8.ofNat (w % base + mark)] v w where
  lt hlt xs ys := by
    rw [Nat.mod_eq_of_lt hv, Nat.mod_eq_of_lt hw]
    exact ofNat_cons_lt (by omega) (by omega) xs ys
  eq heq := by rw [heq]

/-- One more digit. -/
theorem Ascending.digit
    (h : Ascending p q (v / 64) (w / 64)) :
    Ascending (p ++ [UInt8.ofNat (v % 64 + 128)]) (q ++ [UInt8.ofNat (w % 64 + 128)]) v w where
  lt hlt xs ys := by
    rw [List.append_assoc, List.append_assoc]
    rcases Nat.lt_or_eq_of_le (Nat.div_le_div_right hlt.le : v / 64 ≤ w / 64) with hhigh | hhigh
    · exact h.lt hhigh _ _
    · rw [h.eq hhigh]
      exact List.append_left_lt (ofNat_cons_lt (by omega) (by omega) xs ys)
  eq heq := by rw [h.eq (congrArg (· / 64) heq), heq]

/-- Different numbers of digits are told apart by the first byte. -/
theorem ascending_of_marks
    {a b : Nat}
    (hmarks : v < w → a < b)
    (hb : b < 256)
    (hne : v ≠ w) :
    Ascending (UInt8.ofNat a :: p) (UInt8.ofNat b :: q) v w where
  lt hlt _ _ := ofNat_cons_lt (hmarks hlt) hb _ _
  eq heq := absurd heq hne

theorem toNat_val_lt
    (c : Char) :
    c.val.toNat < 0x110000 := by
  have hvalid : c.val.toNat < 0xd800 ∨ 0xdfff < c.val.toNat ∧ c.val.toNat < 0x110000 := c.valid
  omega

theorem ascending_encodeChar
    (c d : Char) :
    Ascending (String.utf8EncodeChar c) (String.utf8EncodeChar d) c.val.toNat d.val.toNat := by
  have hc := toNat_val_lt c
  have hd := toNat_val_lt d
  unfold String.utf8EncodeChar
  generalize c.val.toNat = v at hc ⊢
  generalize d.val.toNat = w at hd ⊢
  have hdiv (x : Nat) : x / 4096 = x / 64 / 64 ∧ x / 262144 = x / 64 / 64 / 64 := by omega
  simp only [hdiv]
  split_ifs
  -- The first byte decides where one character has more digits than the other.
  any_goals (refine ascending_of_marks ?_ ?_ ?_ <;> omega)
  · have hlead : Ascending [UInt8.ofNat (v % 128 + 0)] [UInt8.ofNat (w % 128 + 0)] v w :=
      ascending_lead (by omega) (by omega) (by omega)
    rwa [Nat.mod_eq_of_lt (by omega), Nat.mod_eq_of_lt (by omega)] at hlead
  · exact (ascending_lead (by omega) (by omega) (by omega)).digit
  · exact (ascending_lead (by omega) (by omega) (by omega)).digit.digit
  · exact (ascending_lead (by omega) (by omega) (by omega)).digit.digit.digit

end Characters

theorem flatMap_encodeChar_lt
    {cs ds : List Char}
    (h : cs < ds) :
    cs.flatMap String.utf8EncodeChar < ds.flatMap String.utf8EncodeChar := by
  induction h with
  | @nil d ds =>
      obtain ⟨x, xs, hx⟩ := List.exists_cons_of_ne_nil (String.utf8EncodeChar_ne_nil (c := d))
      simp [hx]
  | @rel c cs d ds hlt =>
      rw [List.flatMap_cons, List.flatMap_cons]
      exact (ascending_encodeChar c d).lt hlt _ _
  | cons _ ih =>
      rw [List.flatMap_cons, List.flatMap_cons]
      exact List.append_left_lt ih

/-- The order of texts is the order of their bytes. -/
theorem bytes_lt_iff
    {s t : String} :
    bytes s < bytes t ↔ s < t := by
  have hmono {s t : String} (h : s < t) : bytes s < bytes t := by
    rw [bytes_eq_flatMap, bytes_eq_flatMap]
    exact flatMap_encodeChar_lt h
  constructor
  · intro h
    rcases lt_trichotomy s t with hlt | rfl | hgt
    · exact hlt
    · exact absurd h (List.lt_irrefl _)
    · exact absurd h (List.lt_asymm (hmono hgt))
  · exact hmono

end Text
end GraphMachine
