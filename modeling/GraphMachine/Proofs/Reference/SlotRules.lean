import GraphMachine.Proofs.Peg
import GraphMachine.Proofs.Reference.Braces

/-!
# Rules for references

The rule for references takes a reference exactly where one is written.  Where an open brace begins
no reference, the record of failed rules points at the brace if an offset follows it, and else
behind the blanks after the brace, since the rule for offsets has failed there.
-/

namespace GraphMachine
namespace Slot

open Text Peg

variable {p : Place}
variable {a : Attempts}

section Leaves

variable {w rest : List Char}

theorem run1_isDigit_eq
    (p : Place)
    (a : Attempts) :
    run1 Char.isDigit p a =
      ((digits? p.rest).map fun (ds, rest) => (ds, p.advance ds rest), a) := by
  unfold digits?
  split
  · next hnil => exact run1_of_nil hnil
  · next d ds hcons => exact run1_of_cons hcons

theorem sign_of_cons
    {c : Char}
    (hc : c = '+' ∨ c = '-')
    (hp : p.rest = c :: rest) :
    sign p a = (some ([c], p.advance [c] rest), a) := by
  rcases hc with rfl | rfl
  · apply orElse_of_some
    rw [bind_of_some _ (literal_of_cons hp)]
    rfl
  · have hplus : ∀ rest', p.rest ≠ '+' :: rest' := by
      simp [hp]
    rw [sign, orElse_of_none (bind_of_none _ (literal_of_ne_cons hplus))]
    apply orElse_of_some
    rw [bind_of_some _ (literal_of_cons hp)]
    rfl

theorem sign_of_ne_cons
    (hplus : ∀ rest, p.rest ≠ '+' :: rest)
    (hminus : ∀ rest, p.rest ≠ '-' :: rest) :
    sign p a = (some ([], p), a) := by
  rw [sign, orElse_of_none (bind_of_none _ (literal_of_ne_cons hplus)),
    orElse_of_none (bind_of_none _ (literal_of_ne_cons hminus))]
  rfl

/-- Digits behind the sign make an offset. -/
theorem offsetRule_of_sign
    {q : Place}
    (hsign : sign p a = (some (w, q), a)) :
    offsetRule p a =
      match digits? q.rest with
      | some (ds, rest) => (some (.offset (w ++ ds), q.advance ds rest), a)
      | none => (none, a.fail .offset p.position (a.countAt p.position)) := by
  have hrun := run1_isDigit_eq q a
  cases hdigits : digits? q.rest with
  | some found =>
      rw [hdigits] at hrun
      apply rule_of_some
      rw [bind_of_some _ hsign, bind_of_some _ hrun]
      rfl
  | none =>
      rw [hdigits] at hrun
      apply rule_of_none
      rw [bind_of_some _ hsign]
      exact bind_of_none _ hrun

theorem offsetRule_eq
    (p : Place)
    (a : Attempts) :
    offsetRule p a =
      match offset? p.rest with
      | some (w, rest) => (some (.offset w, p.advance w rest), a)
      | none => (none, a.fail .offset p.position (a.countAt p.position)) := by
  obtain ⟨rest, position⟩ := p
  cases rest with
  | nil =>
      exact offsetRule_of_sign (sign_of_ne_cons (by simp) (by simp))
  | cons c cs =>
      by_cases hc : c = '+' ∨ c = '-'
      · rw [offsetRule_of_sign (sign_of_cons hc rfl)]
        simp only [offset?, hc, if_true, Place.rest_advance, Place.advance_advance]
        cases digits? cs <;> rfl
      · rw [not_or] at hc
        rw [offsetRule_of_sign (sign_of_ne_cons (by simp [hc.1]) (by simp [hc.2]))]
        simp only [offset?, hc, or_self, if_false]
        rfl

theorem nameRule_eq
    (p : Place)
    (a : Attempts) :
    nameRule p a =
      match identifier? p.rest with
      | some (w, rest) => (some (.name w, p.advance w rest), a)
      | none => (none, a.fail .name p.position (a.countAt p.position)) := by
  have hidentifier := identifier_eq p a
  cases hname : identifier? p.rest with
  | some found =>
      rw [hname] at hidentifier
      exact rule_of_some .name (map_of_some name hidentifier)
  | none =>
      rw [hname] at hidentifier
      exact rule_of_none .name (map_of_none name hidentifier)

end Leaves

/-- The slot behind an open brace is found.  The record moves unless it is an offset. -/
theorem exists_content
    (p : Place)
    (a : Attempts) :
    ∃ w b,
      p.rest = w ++ (content p.rest).2 ∧
      (offsetRule <|> nameRule <|> pure empty : Peg Slot) p a =
        (some ((content p.rest).1, p.advance w (content p.rest).2), b) ∧
      b.position =
        if (offset? p.rest).isSome then a.position else max a.position p.position := by
  have hoffset := offsetRule_eq p a
  have hname := nameRule_eq p (a.fail .offset p.position (a.countAt p.position))
  cases hfound : offset? p.rest with
  | some found =>
      rw [hfound] at hoffset
      rw [content_of_offset hfound]
      exact ⟨_, _, (eq_append_of_offset? hfound).2, orElse_of_some hoffset, rfl⟩
  | none =>
      rw [hfound] at hoffset
      rw [orElse_of_none hoffset]
      cases hword : identifier? p.rest with
      | some found =>
          rw [hword] at hname
          rw [content_of_name hfound hword]
          exact ⟨_, _, (eq_append_of_identifier? hword).2, orElse_of_some hname,
            Attempts.position_fail ..⟩
      | none =>
          rw [hword] at hname
          rw [content_of_none hfound hword, orElse_of_none hname]
          refine ⟨[], _, rfl, rfl, ?_⟩
          simp [Attempts.position_fail]

/-- Blanks and a closing brace. -/
theorem closing_eq
    (slot : Slot)
    (p : Place)
    (a : Attempts) :
    (do blanks; literal ['\x7d']; pure slot : Peg Slot) p a =
      ((close? p.rest).map fun rest =>
        (slot, (p.skip isBlank).advance ['\x7d'] rest), a) := by
  rw [blanks, bind_of_some _ (discard_run isBlank p a)]
  unfold close?
  split
  · next rest hrest =>
      rw [bind_of_some _ (literal_of_cons (p := p.skip isBlank) hrest)]
      rfl
  · next hne =>
      rw [bind_of_none _ (literal_of_ne_cons (p := p.skip isBlank) hne)]
      rfl


section References

variable {cs rest : List Char}
variable {slot : Slot}

theorem byteLength_takeWhile_isBlank
    (cs : List Char) :
    byteLength (cs.takeWhile isBlank) = (cs.takeWhile isBlank).length := by
  have hsize : ∀ c, isBlank c = true → c.utf8Size = 1 := by
    intro c hc
    simp only [isBlank, Bool.or_eq_true, beq_iff_eq] at hc
    rcases hc with rfl | rfl <;> decide
  induction cs with
  | nil =>
      rfl
  | cons c cs ih =>
      cases hc : isBlank c with
      | false => simp [hc]
      | true => simp [hc, ih, hsize c hc, Nat.add_comm]

/-- Up to its slot a reference is taken in any case. -/
theorem exists_slot
    (f : Slot → Peg Slot)
    (a : Attempts)
    (hp : p.rest = '\x7b' :: cs) :
    ∃ w b,
      cs = w ++ (content (skipBlanks cs)).2 ∧
      (cs.takeWhile isBlank).length ≤ byteLength w ∧
      (do literal ['\x7b']; blanks; let slot ← offsetRule <|> nameRule <|> pure empty; f slot :
        Peg Slot) p a =
        f (content (skipBlanks cs)).1
          (p.advance ('\x7b' :: w) (content (skipBlanks cs)).2) b ∧
      b.position =
        if BeginsOffset cs then
          a.position
        else
          max a.position (p.position + 1 + (cs.takeWhile isBlank).length) := by
  obtain ⟨w, b, hrest, hrun, hposition⟩ :=
    exists_content ((p.advance ['\x7b'] cs).skip isBlank) a
  have hskip : ((p.advance ['\x7b'] cs).skip isBlank).rest = skipBlanks cs := rfl
  rw [hskip] at hrest hrun hposition
  refine ⟨cs.takeWhile isBlank ++ w, b, ?_, ?_, ?_, ?_⟩
  · rw [List.append_assoc, ← hrest]
    exact List.takeWhile_append_dropWhile.symm
  · rw [byteLength_append, byteLength_takeWhile_isBlank]
    exact Nat.le_add_right _ _
  · rw [bind_of_some _ (literal_of_cons hp), blanks,
      bind_of_some _ (discard_run isBlank (p.advance ['\x7b'] cs) a), bind_of_some _ hrun]
    simp only [Place.skip, Place.advance_advance, Place.rest_advance, List.cons_append,
      List.nil_append]
  · simp only [hposition, ← beginsOffset_iff]
    have hbrace : byteLength ['\x7b'] = 1 := by decide
    simp only [Place.skip, Place.advance, hbrace, byteLength_takeWhile_isBlank]

/-- A reference is taken as a whole, and the record stays behind its end. -/
theorem exists_referenceRule_of_some
    (hp : p.rest = '\x7b' :: cs)
    (ha : a.position ≤ p.position)
    (h : scan? cs = some (slot, rest)) :
    ∃ w b,
      cs = w ++ rest ∧
      referenceRule p a = (some (slot, p.advance ('\x7b' :: w) rest), b) ∧
      b.position < p.position + byteLength ('\x7b' :: w) := by
  obtain ⟨after, hclose, heq⟩ := Option.map_eq_some_iff.mp h
  cases heq
  obtain ⟨w, b, hcs, hblanks, hrun, hposition⟩ :=
    exists_slot (fun slot => do blanks; literal ['\x7d']; pure slot) a hp
  obtain ⟨u, hu, htail⟩ := close?_eq_some_iff.mp hclose
  have htake : (content (skipBlanks cs)).2.takeWhile isBlank = u := by
    rw [htail]
    exact takeWhile_append_of_head hu (by simp [isBlank])
  rw [closing_eq, Place.rest_advance, hclose] at hrun
  refine ⟨w ++ (u ++ ['\x7d']), b, ?_, ?_, ?_⟩
  · simpa [htail] using hcs
  · apply rule_of_some
    rw [hrun]
    simp [Place.skip, Place.advance_advance, htake]
  · have hbrace : Char.utf8Size '\x7b' = 1 := by decide
    have hclosing : byteLength ['\x7d'] = 1 := by decide
    rw [hposition, byteLength_cons, byteLength_append, byteLength_append, hbrace, hclosing]
    split
    · omega
    · omega

/-- A brace that begins no reference is put on record. -/
theorem exists_referenceRule_of_none
    (hp : p.rest = '\x7b' :: cs)
    (ha : a.position ≤ p.position)
    (h : scan? cs = none) :
    ∃ b, referenceRule p a = (none, b) ∧ b.position = reportedAt p.position cs := by
  obtain ⟨w, b, _, _, hrun, hposition⟩ :=
    exists_slot (fun slot => do blanks; literal ['\x7d']; pure slot) a hp
  rw [closing_eq, Place.rest_advance, Option.map_eq_none_iff.mp h] at hrun
  refine ⟨_, rule_of_none .reference hrun, ?_⟩
  rw [Attempts.position_fail, hposition, reportedAt]
  split
  · exact Nat.max_eq_right ha
  · omega

theorem referenceRule_of_ne
    (hp : ∀ cs, p.rest ≠ '\x7b' :: cs) :
    referenceRule p a = (none, a.fail .reference p.position (a.countAt p.position)) := by
  apply rule_of_none
  exact bind_of_none _ (literal_of_ne_cons hp)

end References
end Slot
end GraphMachine
