import GraphMachine.Expr.Pairs
import GraphMachine.Proofs.Expr.Boundaries
import GraphMachine.Proofs.Peg

/-!
# Rules for tokens

Every rule that has no rule inside it takes one kind of token: it matches exactly where such a token
starts, and then it takes the whole token.  The operators are tried one after the other, and the
first one that matches is the token.
-/

namespace GraphMachine

open Text

namespace Peg.Place

/-- The tokens from a place on. -/
def lexemes (p : Place) : List Lexeme :=
  Token.lexFrom p.position 0 p.rest

/-- The token that starts at a place, and the place behind it. -/
def next? (p : Place) : Option (Token × Place) :=
  match p.rest with
  | [] => none
  | c :: cs =>
      let found := Token.startingAt c cs
      some (found.1, p.advance (c :: cs.take found.2) (cs.drop found.2))

/-- No gap starts at the place. -/
def Settled (p : Place) : Prop :=
  ∀ c ∈ p.rest.head?, isGap c = false

variable {p q : Place}
variable {t : Token}

theorem settled_skip
    (p : Place) :
    (p.skip isGap).Settled := by
  intro c hc
  have hnot := List.head?_dropWhile_not isGap p.rest
  change c ∈ (p.rest.dropWhile isGap).head? at hc
  rw [Option.mem_def] at hc
  rw [hc] at hnot
  exact hnot

theorem Settled.skip_eq
    (h : p.Settled) :
    p.skip isGap = p := by
  obtain ⟨rest, position⟩ := p
  cases rest with
  | nil =>
      rfl
  | cons c cs =>
      have hc : isGap c = false := h c rfl
      simp [skip, advance, hc]

theorem lexemes_skip
    (p : Place) :
    (p.skip isGap).lexemes = p.lexemes := by
  obtain ⟨rest, position⟩ := p
  change Token.lexFrom (position + byteLength (rest.takeWhile isGap)) 0 (rest.dropWhile isGap) =
    Token.lexFrom position 0 rest
  induction rest generalizing position with
  | nil =>
      rfl
  | cons c cs ih =>
      cases hc : isGap c with
      | true =>
          have htail := ih (position + c.utf8Size)
          simp only [List.takeWhile_cons, List.dropWhile_cons, hc, if_true, byteLength_cons,
            Token.lexFrom, ← Nat.add_assoc]
          exact htail
      | false =>
          simp [hc]

theorem next?_eq_none_iff :
    p.next? = none ↔ p.rest = [] := by
  unfold next?
  split <;> simp_all

theorem lexemes_of_next
    (hp : p.Settled)
    (h : p.next? = some (t, q)) :
    p.lexemes = ⟨t, p.position⟩ :: q.lexemes := by
  obtain ⟨rest, position⟩ := p
  cases rest with
  | nil =>
      cases h
  | cons c cs =>
      have hc : isGap c = false := hp c rfl
      have htaken := Token.taken_le_length c cs
      obtain ⟨w, left, rfl, hw⟩ :
          ∃ w left, cs = w ++ left ∧ w.length = (Token.startingAt c cs).2 :=
        ⟨_, _, (List.take_append_drop _ cs).symm, List.length_take_of_le htaken⟩
      simp only [next?, ← hw, List.take_left, List.drop_left, Option.some.injEq,
        Prod.mk.injEq] at h
      obtain ⟨rfl, rfl⟩ := h
      simp only [lexemes, Token.lexFrom, hc, Bool.false_eq_true, if_false, ← hw,
        Token.lexFrom_length_append, advance, byteLength_cons, Nat.add_assoc]

/-- The next token spells the characters that are taken. -/
theorem exists_spells_of_next
    (h : p.next? = some (t, q)) :
    ∃ w rest, p.rest = w ++ rest ∧ Token.Spells w t ∧ q = p.advance w rest := by
  obtain ⟨rest, position⟩ := p
  cases rest with
  | nil =>
      cases h
  | cons c cs =>
      simp only [next?, Option.some.injEq, Prod.mk.injEq] at h
      obtain ⟨rfl, rfl⟩ := h
      refine ⟨c :: cs.take (Token.startingAt c cs).2, cs.drop (Token.startingAt c cs).2, ?_,
        Token.spells_startingAt c cs, rfl⟩
      simp

end Peg.Place

namespace Pairs

open Peg Token

variable {p q : Place}

section Leaves

variable {c : Char}
variable {cs : List Char}
variable {position : Nat}

theorem next_of_digit
    (hc : c.isDigit = true) :
    (Place.mk (c :: cs) position).next? =
      some (.integer (c :: cs.takeWhile Char.isDigit),
        Place.advance ⟨c :: cs, position⟩ (c :: cs.takeWhile Char.isDigit)
          (cs.dropWhile Char.isDigit)) := by
  simp only [Place.next?, startingAt, hc, if_true, take_length_takeWhile, drop_length_takeWhile]

theorem next_of_wordStart
    (hc : isWordStart c = true) :
    (Place.mk (c :: cs) position).next? =
      some (.ident (c :: cs.takeWhile isWordChar),
        Place.advance ⟨c :: cs, position⟩ (c :: cs.takeWhile isWordChar)
          (cs.dropWhile isWordChar)) := by
  have hdigit : c.isDigit = false := isDigit_of_isWordStart hc
  simp only [Place.next?, startingAt, hdigit, Bool.false_eq_true, if_false, hc, if_true,
    take_length_takeWhile, drop_length_takeWhile]

theorem next_of_symbol
    (hdigit : c.isDigit = false)
    (hstart : isWordStart c = false) :
    (Place.mk (c :: cs) position).next? =
      some ((symbolAt c cs).1,
        Place.advance ⟨c :: cs, position⟩ (c :: cs.take (symbolAt c cs).2)
          (cs.drop (symbolAt c cs).2)) := by
  simp only [Place.next?, startingAt, hdigit, hstart, Bool.false_eq_true, if_false]

/-- The rule for numbers takes the next token if that is a number. -/
theorem integer_of_next
    {digits : List Char}
    (a : Attempts)
    (h : p.next? = some (.integer digits, q)) :
    integer p a = (some (.integer digits, q), a) := by
  obtain ⟨rest, position⟩ := p
  obtain ⟨w, left, hrest, hspells, -⟩ := Place.exists_spells_of_next h
  cases hspells with
  | integer hw =>
      cases digits with
      | nil =>
          exact absurd rfl hw.1
      | cons c ds =>
          change rest = c :: (ds ++ left) at hrest
          subst hrest
          have hc : c.isDigit = true := hw.2 c (by simp)
          rw [next_of_digit hc, Option.some.injEq, Prod.mk.injEq, Token.integer.injEq] at h
          obtain ⟨hdigits, rfl⟩ := h
          apply rule_of_some
          rw [← hdigits]
          apply map_of_some
          rw [run1_of_cons (show _ = c :: (ds ++ left).takeWhile Char.isDigit by simp [hc])]
          simp [hc]

theorem integer_of_ne
    (a : Attempts)
    (h : ∀ digits q, p.next? ≠ some (.integer digits, q)) :
    integer p a = (none, a.fail .integer p.position (a.countAt p.position)) := by
  apply rule_of_none
  apply map_of_none
  apply run1_of_nil
  obtain ⟨rest, position⟩ := p
  cases rest with
  | nil =>
      rfl
  | cons c cs =>
      cases hc : c.isDigit with
      | false => simp [hc]
      | true => exact absurd (next_of_digit hc) (h _ _)

theorem ident_of_next
    {name : List Char}
    (a : Attempts)
    (h : p.next? = some (.ident name, q)) :
    ident p a = (some (.ident name, q), a) := by
  obtain ⟨rest, position⟩ := p
  obtain ⟨w, left, hrest, hspells, -⟩ := Place.exists_spells_of_next h
  cases hspells with
  | ident hw =>
      cases name with
      | nil =>
          exact hw.elim
      | cons c ds =>
          change rest = c :: (ds ++ left) at hrest
          subst hrest
          have hc : isWordStart c = true := hw.1
          rw [next_of_wordStart hc, Option.some.injEq, Prod.mk.injEq, Token.ident.injEq] at h
          obtain ⟨hname, rfl⟩ := h
          apply rule_of_some
          rw [← hname]
          apply map_of_some
          rw [identifier_eq]
          simp [identifier?, word?, hc]

theorem ident_of_ne
    (a : Attempts)
    (h : ∀ name q, p.next? ≠ some (.ident name, q)) :
    ident p a = (none, a.fail .ident p.position (a.countAt p.position)) := by
  apply rule_of_none
  apply map_of_none
  rw [identifier_eq]
  obtain ⟨rest, position⟩ := p
  cases rest with
  | nil =>
      rfl
  | cons c cs =>
      cases hc : isWordStart c with
      | false => simp [identifier?, word?, hc]
      | true => exact absurd (next_of_wordStart hc) (h _ _)

end Leaves

section Signs

/-- A token that is written with a single character is taken by that character. -/
theorem literal_of_next
    {t : Token}
    {c : Char}
    (a : Attempts)
    (ht : ∀ w, Spells w t → w = [c])
    (h : p.next? = some (t, q)) :
    literal [c] p a = (some ((), q), a) := by
  obtain ⟨w, left, hrest, hspells, rfl⟩ := Place.exists_spells_of_next h
  rw [ht w hspells] at hrest ⊢
  rw [literal_eq, hrest]
  simp

theorem literal_of_ne
    {t : Token}
    {c : Char}
    (a : Attempts)
    (ht : ∀ cs, startingAt c cs = (t, 0))
    (h : ∀ q, p.next? ≠ some (t, q)) :
    literal [c] p a = (none, a) := by
  obtain ⟨rest, position⟩ := p
  rw [literal_eq]
  cases rest with
  | nil =>
      rfl
  | cons d cs =>
      have hne : c ≠ d := by
        rintro rfl
        exact h _ (by simp only [Place.next?, ht]; rfl)
      simp [hne]

theorem minus_of_next
    (a : Attempts)
    (h : p.next? = some (.operator (.arith .sub), q)) :
    minus p a = (some ((), q), a) := by
  apply rule_of_some
  refine literal_of_next a (fun w hw => ?_) h
  cases hw
  rfl

theorem minus_of_ne
    (a : Attempts)
    (h : ∀ q, p.next? ≠ some (.operator (.arith .sub), q)) :
    minus p a = (none, a.fail .minus p.position (a.countAt p.position)) := by
  apply rule_of_none
  exact literal_of_ne a (fun _ => rfl) h

theorem opening_of_next
    (a : Attempts)
    (h : p.next? = some (.opening, q)) :
    literal ['('] p a = (some ((), q), a) := by
  refine literal_of_next a (fun w hw => ?_) h
  cases hw
  rfl

theorem opening_of_ne
    (a : Attempts)
    (h : ∀ q, p.next? ≠ some (.opening, q)) :
    literal ['('] p a = (none, a) := by
  exact literal_of_ne a (fun _ => rfl) h

theorem closing_of_next
    (a : Attempts)
    (h : p.next? = some (.closing, q)) :
    literal [')'] p a = (some ((), q), a) := by
  refine literal_of_next a (fun w hw => ?_) h
  cases hw
  rfl

theorem closing_of_ne
    (a : Attempts)
    (h : ∀ q, p.next? ≠ some (.closing, q)) :
    literal [')'] p a = (none, a) := by
  exact literal_of_ne a (fun _ => rfl) h

end Signs

section Operators

/-- The operator that a token is, with its characters. -/
def operator? : Token → Option (Operator × List Char)
  | .operator op => some (op, op.symbol.toList)
  | _ => none

/-- The first operator on a list that the text at the place begins with. -/
def first? (ops : List (Operator × List Char)) (cs : List Char) : Option (Operator × List Char) :=
  ops.find? fun s => s.2.isPrefixOf cs

theorem symbol_of_not_begins
    {op : Operator}
    {symbol : List Char}
    (a : Attempts)
    (h : symbol.isPrefixOf p.rest = false) :
    rule (.operator op) (do literal symbol; pure op) p a =
      (none, a.fail (.operator op) p.position (a.countAt p.position)) := by
  apply rule_of_none
  apply bind_of_none
  rw [literal_eq, h]
  rfl

theorem exists_oneOf_of_first
    {ops : List (Operator × List Char)}
    {op : Operator}
    {symbol : List Char}
    {a : Attempts}
    (h : first? ops p.rest = some (op, symbol))
    (ha : a.position ≤ p.position) :
    ∃ b,
      b.position ≤ p.position ∧
      oneOf ops p a = (some (op, p.advance symbol (p.rest.drop symbol.length)), b) := by
  induction ops generalizing a with
  | nil =>
      cases h
  | cons s ops ih =>
      obtain ⟨op', symbol'⟩ := s
      simp only [first?, List.find?_cons] at h
      cases hbegins : symbol'.isPrefixOf p.rest with
      | true =>
          rw [hbegins] at h
          cases h
          refine ⟨a, ha, orElse_of_some (rule_of_some _ ?_)⟩
          rw [bind_of_some _ ((literal_eq _ p a).trans (if_pos hbegins))]
          rfl
      | false =>
          rw [hbegins] at h
          have hfail : (a.fail (.operator op') p.position (a.countAt p.position)).position ≤
              p.position := by
            rw [Attempts.position_fail]
            exact Nat.max_le.mpr ⟨ha, Nat.le_refl _⟩
          obtain ⟨b, hb, hrest⟩ := ih h hfail
          exact ⟨b, hb, (orElse_of_none (symbol_of_not_begins a hbegins)).trans hrest⟩

theorem oneOf_of_first_none
    {ops : List (Operator × List Char)}
    (rules : List Expectation)
    (h : first? ops p.rest = none) :
    oneOf ops p ⟨p.position, rules⟩ =
      (none, ⟨p.position, (ops.map fun s => .operator s.1).reverse ++ rules⟩) := by
  induction ops generalizing rules with
  | nil =>
      rfl
  | cons s ops ih =>
      obtain ⟨op, symbol⟩ := s
      simp only [first?, List.find?_cons] at h
      cases hbegins : symbol.isPrefixOf p.rest with
      | true =>
          rw [hbegins] at h
          cases h
      | false =>
          rw [hbegins] at h
          rw [oneOf, orElse_of_none (symbol_of_not_begins _ hbegins), Attempts.countAt_self,
            Attempts.fail_self, ih (.operator op :: rules) h]
          simp

theorem first_symbols_of_wordChar
    {c : Char}
    (cs : List Char)
    (hc : isWordChar c = true) :
    first? symbols (c :: cs) = none := by
  rw [first?, List.find?_eq_none]
  intro s hs hbegins
  obtain ⟨op, -, rfl⟩ := List.mem_map.mp hs
  obtain ⟨d, ds, hsymbol⟩ := List.exists_cons_of_ne_nil op.symbol_ne_nil
  have hd : isWordChar d = false := op.isWordChar_symbol d (by simp [hsymbol])
  simp only [hsymbol, List.isPrefixOf_iff_prefix, List.cons_prefix_cons] at hbegins
  rw [hbegins.1, hc] at hd
  cases hd

section Order

variable {c d : Char}
variable {cs : List Char}

theorem not_begins_of_ne
    (ds : List Char)
    (h : c ≠ d) :
    (d :: ds).isPrefixOf (c :: cs) = false := by
  simp [List.isPrefixOf, h.symm]

theorem not_begins_equals
    (h : ∀ tail, cs ≠ '=' :: tail) :
    [d, '='].isPrefixOf (c :: cs) = false := by
  cases cs with
  | nil => simp [List.isPrefixOf]
  | cons e tail =>
      have hne : e ≠ '=' := fun he => h tail (by rw [he])
      simp [List.isPrefixOf, hne.symm]

theorem not_begins_comparison
    (h : ∀ tail, c = d → cs = '=' :: tail → False) :
    [d, '='].isPrefixOf (c :: cs) = false := by
  by_cases hc : c = d
  · exact not_begins_equals fun tail => h tail hc
  · exact not_begins_of_ne _ hc

end Order

theorem symbols_eq :
    symbols =
      [(.compare .eq, ['=', '=']), (.compare .ne, ['!', '=']), (.compare .le, ['<', '=']),
        (.compare .ge, ['>', '=']), (.compare .lt, ['<']), (.compare .gt, ['>']),
        (.arith .add, ['+']), (.arith .sub, ['-']), (.arith .mul, ['*']), (.arith .div, ['/']),
        (.arith .rem, ['%'])] := by
  rfl

/-- The operator that is tried first is the one that the next token is. -/
theorem first_symbols_eq
    (c : Char)
    (cs : List Char) :
    first? symbols (c :: cs) = operator? (symbolAt c cs).1 := by
  unfold symbolAt
  split
  · rfl
  · rfl
  · rfl
  · rfl
  · rfl
  · rfl
  · next hequals =>
      rw [first?, symbols_eq]
      simp only [List.find?_cons, not_begins_equals hequals]
      rfl
  · next hequals =>
      rw [first?, symbols_eq]
      simp only [List.find?_cons, not_begins_equals hequals]
      rfl
  · rfl
  · rfl
  · rfl
  · rfl
  · rfl
  · next hlt hgt hadd hsub hmul hdiv hrem heq hne hle hge =>
      rw [first?, symbols_eq]
      simp only [List.find?_cons, not_begins_comparison heq, not_begins_comparison hne,
        not_begins_comparison hle, not_begins_comparison hge, not_begins_of_ne _ hlt,
        not_begins_of_ne _ hgt, not_begins_of_ne _ hadd, not_begins_of_ne _ hsub,
        not_begins_of_ne _ hmul, not_begins_of_ne _ hdiv, not_begins_of_ne _ hrem]
      rfl

theorem first_of_next
    {t : Token}
    (h : p.next? = some (t, q)) :
    first? symbols p.rest = operator? t := by
  obtain ⟨rest, position⟩ := p
  cases rest with
  | nil =>
      cases h
  | cons c cs =>
      cases hdigit : c.isDigit with
      | true =>
          rw [next_of_digit hdigit] at h
          cases h
          exact first_symbols_of_wordChar cs (isWordChar_of_isDigit c hdigit)
      | false =>
          cases hstart : isWordStart c with
          | true =>
              rw [next_of_wordStart hstart] at h
              cases h
              have hw : IsIdentifier [c] := ⟨hstart, by simp⟩
              exact first_symbols_of_wordChar cs (hw.isWordChar c (by simp))
          | false =>
              rw [next_of_symbol hdigit hstart] at h
              cases h
              exact first_symbols_eq c cs

/-- The rule for operators takes the next token if that is an operator. -/
theorem exists_operator_of_next
    {op : Operator}
    {a : Attempts}
    (h : p.next? = some (.operator op, q))
    (ha : a.position ≤ p.position) :
    ∃ b, b.position ≤ p.position ∧ operator p a = (some (op, q), b) := by
  obtain ⟨b, hb, hfound⟩ := exists_oneOf_of_first (first_of_next h) ha
  obtain ⟨w, left, hrest, hspells, rfl⟩ := Place.exists_spells_of_next h
  cases hspells with
  | operator op =>
      refine ⟨b, hb, hfound.trans ?_⟩
      rw [hrest, List.drop_left]

theorem operator_of_ne
    {a : Attempts}
    (h : ∀ op q, p.next? ≠ some (.operator op, q))
    (ha : a.Fresh p.position) :
    operator p a = (none, ⟨p.position, Expectation.operators.reverse⟩) := by
  have hnone : first? symbols p.rest = none := by
    cases hnext : p.next? with
    | none =>
        rw [Place.next?_eq_none_iff.mp hnext]
        rfl
    | some found =>
        obtain ⟨t, q⟩ := found
        rw [first_of_next hnext]
        cases t with
        | operator op => exact absurd hnext (h op q)
        | _ => rfl
  -- The first operator begins the record, and the others come next to it.
  rw [first?, symbols_eq, List.find?_cons] at hnone
  split at hnone
  · cases hnone
  · next hbegins =>
      rw [operator, symbols_eq, oneOf, orElse_of_none (symbol_of_not_begins a hbegins),
        ha.fail_eq, oneOf_of_first_none _ hnone]
      rfl

end Operators
end Pairs
end GraphMachine
