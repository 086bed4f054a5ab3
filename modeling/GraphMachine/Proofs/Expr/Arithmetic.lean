import GraphMachine.Proofs.Expr.DepthLimit
import Mathlib

/-!
# Arithmetic on words

Sums, differences, products and opposites of words are those of the integers, reduced modulo
`2 ^ 64` to the range of words; `Wraps` says so.  Quotients are the quotients of the rational
numbers without their fractions.  Of all quotients of words one alone is no word: the smallest word
divided by minus one.  There the quotient wraps around to the smallest word again.

Quotient and remainder fit together in every case, also in this one: the remainder is smaller than
the divisor and has the sign of the dividend, and the product of quotient and divisor makes the
dividend when the remainder is added to it.
-/

namespace GraphMachine

/-- The word that is left of an integer after it has been reduced to the range of words. -/
structure Wraps (x : Int) (w : Int64) : Prop where
  modEq : w.toInt ≡ x [ZMOD 2 ^ 64]
  lower : -2 ^ 63 ≤ w.toInt
  upper : w.toInt < 2 ^ 63

theorem wraps_iff
    {x : Int}
    {w : Int64} :
    Wraps x w ↔ Int64.ofInt x = w := by
  rw [Int64.ofInt_eq_iff_bmod_eq_toInt, Int.bmod_eq_iff (by decide)]
  constructor
  · intro h
    exact ⟨h.lower, h.upper, Int.modEq_iff_dvd.mp h.modEq.symm⟩
  · rintro ⟨hlower, hupper, hdvd⟩
    exact ⟨(Int.modEq_iff_dvd.mpr hdvd).symm, hlower, hupper⟩

/-- An exact value without its fraction. -/
def towardZero (x : ℚ) : Int :=
  if 0 ≤ x then ⌊x⌋ else ⌈x⌉

theorem towardZero_neg
    (x : ℚ) :
    towardZero (-x) = -towardZero x := by
  unfold towardZero
  rcases lt_trichotomy x 0 with hneg | rfl | hpos
  · rw [if_pos (by linarith), if_neg (by linarith), Int.floor_neg]
  · simp
  · rw [if_neg (by linarith), if_pos (by linarith), Int.ceil_neg]

/-- Division of integers that goes toward zero gives the quotient without its fraction. -/
theorem towardZero_div
    (a b : Int) :
    towardZero (a / b : ℚ) = a.tdiv b := by
  -- Both sides change their sign with `a` and with `b`, so both can be taken as natural numbers.
  have hnatural (k l : Nat) : towardZero ((k : Int) / (l : Int) : ℚ) = (k : Int).tdiv l := by
    have hnonneg : (0 : ℚ) ≤ k / l := by positivity
    have hfloor : ⌊(k / l : ℚ)⌋ = ((k / l : Nat) : Int) := by
      rw [← Rat.natFloor_natCast_div_natCast k l, Int.natCast_floor_eq_floor hnonneg]
    simp [towardZero, hnonneg, hfloor]
  obtain ⟨k, rfl | rfl⟩ := a.eq_nat_or_neg
  · obtain ⟨l, rfl | rfl⟩ := b.eq_nat_or_neg
    · exact hnatural k l
    · rw [Int.tdiv_neg, ← hnatural, ← towardZero_neg, Int.cast_neg, div_neg]
  · obtain ⟨l, rfl | rfl⟩ := b.eq_nat_or_neg
    · rw [Int.neg_tdiv, ← hnatural, ← towardZero_neg, Int.cast_neg, neg_div]
    · rw [Int.neg_tdiv, Int.tdiv_neg, neg_neg, ← hnatural, Int.cast_neg, Int.cast_neg,
        neg_div_neg_eq]

namespace ArithOp

section Quotients

variable (a b : Int64)

/-- The quotient of words is the one of the integers, as a word. -/
theorem ofInt_tdiv_eq :
    Int64.ofInt (a.toInt.tdiv b.toInt) = a / b := by
  rw [Int64.ofInt_eq_iff_bmod_eq_toInt, Int64.toInt_div]

theorem ofInt_tmod_eq :
    Int64.ofInt (a.toInt.tmod b.toInt) = a % b := by
  rw [← Int64.toInt_mod, Int64.ofInt_toInt]

/-- Quotient and remainder make the dividend again, though the product may have wrapped around. -/
theorem div_mul_add_mod :
    a / b * b + a % b = a := by
  calc
    a / b * b + a % b = Int64.ofInt (a.toInt.tdiv b.toInt * b.toInt + a.toInt.tmod b.toInt) := by
      rw [Int64.ofInt_add, Int64.ofInt_mul, ofInt_tdiv_eq, ofInt_tmod_eq, Int64.ofInt_toInt]
    _ = a := by
      rw [Int.tdiv_mul_add_tmod, Int64.ofInt_toInt]

/-- Only the smallest word divided by minus one is no word. -/
theorem toInt_div_of_fits
    (h : ¬ (a = Int64.minValue ∧ b = -1)) :
    (a / b).toInt = a.toInt.tdiv b.toInt := by
  by_cases ha : a = Int64.minValue
  · exact Int64.toInt_div_of_ne_right a b fun hb => h ⟨ha, hb⟩
  · exact Int64.toInt_div_of_ne_left a b ha

theorem abs_toInt_mod_lt
    (h : b ≠ 0) :
    |(a % b).toInt| < |b.toInt| := by
  have hb : b.toInt ≠ 0 := fun hzero => h (Int64.toInt_inj.mp hzero)
  rw [Int64.toInt_mod, Int.abs_eq_natAbs, Int.abs_eq_natAbs, Int.natAbs_tmod]
  exact_mod_cast Nat.mod_lt _ (Int.natAbs_pos.mpr hb)

theorem sign_toInt_mod :
    a % b = 0 ∨ (a % b).toInt.sign = a.toInt.sign := by
  by_cases hzero : a % b = 0
  · exact .inl hzero
  · refine .inr ?_
    have hne : a.toInt.tmod b.toInt ≠ 0 := by
      rw [← Int64.toInt_mod]
      exact fun h => hzero (Int64.toInt_inj.mp h)
    rw [Int64.toInt_mod]
    rcases lt_trichotomy a.toInt 0 with hneg | ha | hpos
    · have hle : 0 ≤ -a.toInt.tmod b.toInt := by
        rw [← Int.neg_tmod]
        exact Int.tmod_nonneg b.toInt (neg_nonneg.mpr hneg.le)
      have hle : a.toInt.tmod b.toInt ≤ 0 := neg_nonneg.mp hle
      rw [Int.sign_eq_neg_one_of_neg hneg, Int.sign_eq_neg_one_of_neg (lt_of_le_of_ne hle hne)]
    · rw [ha, Int.zero_tmod]
    · have hle : 0 ≤ a.toInt.tmod b.toInt := Int.tmod_nonneg b.toInt hpos.le
      rw [Int.sign_eq_one_of_pos hpos, Int.sign_eq_one_of_pos (lt_of_le_of_ne hle hne.symm)]

end Quotients

end ArithOp

namespace Expr

/-- The opposite of a value has a level more than the value, and is the opposite word. -/
theorem eval_neg_eq_ok_iff
    {s : Scope}
    {limit : Nat}
    {e : Expr}
    {v : Value} :
    e.neg.eval s limit = .ok v ↔
      e.height < limit ∧ ∃ u, e.value s = .ok u ∧ v = .int (-u.toWord) := by
  by_cases hheight : e.height < limit
  · have hneg : e.neg.eval s limit = e.neg.value s := eval_of_height_le hheight
    rw [hneg, value]
    cases e.value s with
    | error err => simp [bind, Except.bind]
    | ok u => simp [bind, Except.bind, pure, Except.pure, hheight, eq_comm]
  · obtain ⟨err, herr⟩ : FailsAt (evalM s limit e.neg) 0 :=
      failsAt_evalM s e.neg (by simp only [height]; omega)
    have hfails : e.neg.eval s limit = .error err := herr
    simp [hfails, hheight]

/-- Words are divided with exact quotients where these are words, and everything else wraps around.

* Unless the divisor is zero, quotient and remainder make the dividend again by the product and the
  sum of words.  The remainder is smaller than the divisor, and it is zero or has the sign of the
  dividend.  The quotient is the exact one without its fraction, except for the smallest word
  divided by minus one; there it is the smallest word, and nothing remains.
* Nothing can be divided by zero, and for the quotient and the remainder the errors differ.
* Sum, difference and product are those of the integers, reduced to words.
* So is the opposite of every value that the evaluator finds below the minus sign. -/
theorem words_wrap_and_truncate :
    (∀ a b : Int64, b ≠ 0 →
      ∃ q r p,
        ArithOp.div.apply a b = .ok q ∧
        ArithOp.rem.apply a b = .ok r ∧
        ArithOp.mul.apply q b = .ok p ∧
        ArithOp.add.apply p r = .ok a ∧
        |r.toInt| < |b.toInt| ∧
        (r = 0 ∨ r.toInt.sign = a.toInt.sign) ∧
        (¬ (a = Int64.minValue ∧ b = -1) → q.toInt = towardZero (a.toInt / b.toInt)) ∧
        (a = Int64.minValue ∧ b = -1 → q = Int64.minValue ∧ r = 0)) ∧
    (∀ a : Int64,
      ArithOp.div.apply a 0 = .error .divisionByZero ∧
      ArithOp.rem.apply a 0 = .error .moduloByZero) ∧
    (∀ a b : Int64, ∃ sum difference product,
      ArithOp.add.apply a b = .ok sum ∧ Wraps (a.toInt + b.toInt) sum ∧
      ArithOp.sub.apply a b = .ok difference ∧ Wraps (a.toInt - b.toInt) difference ∧
      ArithOp.mul.apply a b = .ok product ∧ Wraps (a.toInt * b.toInt) product) ∧
    ∀ (s : Scope) (limit : Nat) (e : Expr) (v : Value),
      e.neg.eval s limit = .ok v ↔
        e.height < limit ∧
        ∃ u w, e.value s = .ok u ∧ Wraps (-u.toWord.toInt) w ∧ v = .int w := by
  refine ⟨?_, ?_, ?_, ?_⟩
  · intro a b hb
    refine ⟨a / b, a % b, a / b * b, if_neg hb, if_neg hb, rfl, ?_, ArithOp.abs_toInt_mod_lt a b hb,
      ArithOp.sign_toInt_mod a b, ?_, ?_⟩
    · exact congrArg Except.ok (ArithOp.div_mul_add_mod a b)
    · intro hfits
      rw [ArithOp.toInt_div_of_fits a b hfits, towardZero_div]
    · rintro ⟨rfl, rfl⟩
      exact ⟨Int64.minValue_div_neg_one, rfl⟩
  · exact fun a => ⟨rfl, rfl⟩
  · intro a b
    refine ⟨a + b, a - b, a * b, rfl, ?_, rfl, ?_, rfl, ?_⟩
    · simp [wraps_iff]
    · simp [wraps_iff]
    · simp [wraps_iff]
  · intro s limit e v
    rw [eval_neg_eq_ok_iff]
    simp [wraps_iff]

/-- The smallest word divided by minus one, and a quotient that is no whole number: it is neither
rounded down nor to the next one. -/
theorem smallest_and_seven_halves :
    (∃ q r p,
      ArithOp.div.apply Int64.minValue (-1) = .ok q ∧
      ArithOp.rem.apply Int64.minValue (-1) = .ok r ∧
      ArithOp.mul.apply q (-1) = .ok p ∧
      ArithOp.add.apply p r = .ok Int64.minValue ∧
      q = Int64.minValue ∧
      r = 0) ∧
    (∃ q r,
      ArithOp.div.apply (-7) 2 = .ok q ∧
      ArithOp.rem.apply (-7) 2 = .ok r ∧
      q.toInt = towardZero (-7 / 2) ∧
      r.toInt.sign = -1) ∧
    ∃ w, (Expr.integer Int64.minValue).neg.eval ⟨.empty, .tape⟩ 2 = .ok (.int w) ∧
      Wraps 9223372036854775808 w := by
  obtain ⟨hdivision, -, -, hneg⟩ := words_wrap_and_truncate
  refine ⟨?_, ?_, ?_⟩
  · obtain ⟨q, r, p, hq, hr, hp, hsum, -, -, -, hlast⟩ := hdivision Int64.minValue (-1) (by decide)
    obtain ⟨hq', hr'⟩ := hlast ⟨rfl, rfl⟩
    exact ⟨q, r, p, hq, hr, hp, hsum, hq', hr'⟩
  · obtain ⟨q, r, p, hq, hr, -, -, -, hsign, hexact, -⟩ := hdivision (-7) 2 (by decide)
    refine ⟨q, r, hq, hr, ?_, ?_⟩
    · exact_mod_cast hexact (by decide)
    · cases hr
      exact hsign.resolve_left (by decide)
  · obtain ⟨u, w, hu, hw, hv⟩ :=
      ((hneg ⟨.empty, .tape⟩ 2 (.integer Int64.minValue) _).mp rfl).2
    cases hu
    exact ⟨w, congrArg Except.ok hv, hw⟩

end Expr
end GraphMachine
