import GraphMachine.Peg

/-!
# How parsing expressions run

Sequences and choices are described by what their parts give.  A rule that fails without a rule
inside it puts its own name on record: alone if it is further on than everything on record, next to
the others if it is at their place, and not at all if it is behind them.
-/

namespace GraphMachine
namespace Peg

open Text

variable {α β : Type}
variable {p q : Place}
variable {a b : Attempts}

section Sequences

variable {x y : Peg α}
variable {v : α}

theorem bind_of_some
    (f : α → Peg β)
    (h : x p a = (some (v, q), b)) :
    (x >>= f) p a = f v q b := by
  simp only [bind, StateT.bind, OptionT.bind, OptionT.mk, h]

theorem bind_of_none
    (f : α → Peg β)
    (h : x p a = (none, b)) :
    (x >>= f) p a = (none, b) := by
  simp only [bind, StateT.bind, OptionT.bind, OptionT.mk, h]
  rfl

theorem map_of_some
    (f : α → β)
    (h : x p a = (some (v, q), b)) :
    (f <$> x) p a = (some (f v, q), b) := by
  exact bind_of_some (fun v => pure (f v)) h

theorem map_of_none
    (f : α → β)
    (h : x p a = (none, b)) :
    (f <$> x) p a = (none, b) := by
  exact bind_of_none (fun v => pure (f v)) h

theorem orElse_of_some
    (h : x p a = (some (v, q), b)) :
    (x <|> y) p a = (some (v, q), b) := by
  change OptionT.orElse (x p) (fun _ => y p) a = _
  delta OptionT.orElse
  simp only [bind, StateT.bind, OptionT.mk, h]
  rfl

theorem orElse_of_none
    (h : x p a = (none, b)) :
    (x <|> y) p a = y p b := by
  change OptionT.orElse (x p) (fun _ => y p) a = _
  delta OptionT.orElse
  simp only [bind, StateT.bind, OptionT.mk, h]

theorem orElse_congr
    {x' : Peg α}
    (h : x p a = x' p a) :
    (x <|> y) p a = (x' <|> y) p a := by
  rcases hx : x' p a with ⟨_ | ⟨v, q⟩, b⟩
  · rw [orElse_of_none (h.trans hx), orElse_of_none hx]
  · rw [orElse_of_some (h.trans hx), orElse_of_some hx]

theorem rule_of_some
    (label : Expectation)
    (h : x p a = (some (v, q), b)) :
    rule label x p a = (some (v, q), b) := by
  simp only [rule, h]

theorem rule_of_none
    (label : Expectation)
    (h : x p a = (none, b)) :
    rule label x p a = (none, b.fail label p.position (a.countAt p.position)) := by
  simp only [rule, h]

end Sequences

namespace Attempts

/-- Nothing is on record for a position or for one behind it. -/
def Fresh (a : Attempts) (position : Nat) : Prop :=
  a.position < position ∨ a = ⟨position, []⟩

variable {position before : Nat}
variable {rules : List Expectation}

@[simp] theorem countAt_self :
    (Attempts.mk position rules).countAt position = rules.length := by
  simp [countAt]

theorem Fresh.countAt_eq
    (h : a.Fresh position) :
    a.countAt position = 0 := by
  rcases h with hlt | rfl
  · rw [countAt, if_neg (by omega)]
  · simp

theorem Fresh.position_le
    (h : a.Fresh position) :
    a.position ≤ position := by
  rcases h with hlt | rfl
  · omega
  · exact Nat.le_refl _

theorem Fresh.mono
    {further : Nat}
    (h : a.Fresh position)
    (hlt : position < further) :
    a.Fresh further := by
  exact .inl (Nat.lt_of_le_of_lt h.position_le hlt)

/-- A rule further on than everything on record begins a new record. -/
theorem fail_of_lt
    (rule : Expectation)
    (h : a.position < position) :
    a.fail rule position before = ⟨position, [rule]⟩ := by
  have hne : position ≠ a.position := by omega
  simp [fail, countAt, rewind, add, hne, h]

/-- A rule behind everything on record leaves the record as it is. -/
theorem fail_of_gt
    (rule : Expectation)
    (h : position < a.position) :
    a.fail rule position before = a := by
  have hne : position ≠ a.position := by omega
  have hle : ¬ a.position < position := by omega
  simp [fail, countAt, rewind, add, hne, hle]

/-- A rule without rules inside it comes next to the others at its place. -/
@[simp] theorem fail_self
    (rule : Expectation) :
    (Attempts.mk position rules).fail rule position rules.length =
      ⟨position, rule :: rules⟩ := by
  simp [fail, rewind, add]

theorem Fresh.fail_eq
    (rule : Expectation)
    (h : a.Fresh position) :
    a.fail rule position (a.countAt position) = ⟨position, [rule]⟩ := by
  rcases h with hlt | rfl
  · exact fail_of_lt rule hlt
  · simp [fail, rewind, add]

/-- A rule stands for several rules that failed where it began. -/
theorem fail_zero
    (rule : Expectation)
    (h : rules.length ≠ 1) :
    (Attempts.mk position rules).fail rule position 0 = ⟨position, [rule]⟩ := by
  simp [fail, rewind, add, h]

/-- The record is about the furthest place. -/
theorem position_fail
    (a : Attempts)
    (rule : Expectation)
    (position before : Nat) :
    (a.fail rule position before).position = max a.position position := by
  rcases Nat.lt_trichotomy a.position position with hlt | heq | hgt
  · rw [fail_of_lt rule hlt]
    exact (Nat.max_eq_right (Nat.le_of_lt hlt)).symm
  · subst heq
    simp only [fail]
    split
    · simp
    · simp [rewind, add]
  · rw [fail_of_gt rule hgt]
    exact (Nat.max_eq_left (Nat.le_of_lt hgt)).symm

end Attempts

section Characters

variable {rest : List Char}

@[simp] theorem Place.rest_advance
    (p : Place)
    (word rest : List Char) :
    (p.advance word rest).rest = rest := by
  rfl

theorem Place.advance_advance
    (p : Place)
    (u v rest rest' : List Char) :
    (p.advance u rest).advance v rest' = p.advance (u ++ v) rest' := by
  simp [advance, Nat.add_assoc]

theorem get_bind
    (f : Place → Peg α) :
    ((get : Peg Place) >>= f) p a = f p p a := by
  exact bind_of_some f rfl

theorem literal_eq
    (word : List Char)
    (p : Place)
    (a : Attempts) :
    literal word p a =
      if word.isPrefixOf p.rest then
        (some ((), p.advance word (p.rest.drop word.length)), a)
      else
        (none, a) := by
  rw [literal, get_bind]
  split <;> rfl

theorem literal_of_cons
    {c : Char}
    (h : p.rest = c :: rest) :
    literal [c] p a = (some ((), p.advance [c] rest), a) := by
  rw [literal_eq, h]
  simp

theorem literal_of_ne_cons
    {c : Char}
    (h : ∀ rest, p.rest ≠ c :: rest) :
    literal [c] p a = (none, a) := by
  rw [literal_eq, if_neg]
  intro hprefix
  obtain ⟨rest, hrest⟩ := List.isPrefixOf_iff_prefix.mp hprefix
  exact h rest hrest.symm

theorem run_eq
    (class_ : Char → Bool)
    (p : Place)
    (a : Attempts) :
    run class_ p a =
      (some (p.rest.takeWhile class_,
        p.advance (p.rest.takeWhile class_) (p.rest.dropWhile class_)), a) := by
  rw [run, get_bind]
  rfl

theorem identifier_eq
    (p : Place)
    (a : Attempts) :
    identifier p a =
      ((identifier? p.rest).map fun (word, rest) => (word, p.advance word rest), a) := by
  rw [identifier, get_bind]
  cases identifier? p.rest <;> rfl

theorem run1_of_nil
    {class_ : Char → Bool}
    (h : p.rest.takeWhile class_ = []) :
    run1 class_ p a = (none, a) := by
  rw [run1, bind_of_some _ (run_eq class_ p a), h]
  rfl

theorem run1_of_cons
    {class_ : Char → Bool}
    {c : Char}
    {cs : List Char}
    (h : p.rest.takeWhile class_ = c :: cs) :
    run1 class_ p a =
      (some (c :: cs, p.advance (c :: cs) (p.rest.dropWhile class_)), a) := by
  rw [run1, bind_of_some _ (run_eq class_ p a), h]
  rfl

theorem endOfText_of_nil
    (h : p.rest = []) :
    endOfText p a = (some ((), p), a) := by
  apply rule_of_some
  rw [get_bind, h]
  rfl

theorem endOfText_of_ne_nil
    (h : p.rest ≠ []) :
    endOfText p a = (none, a.fail .endOfText p.position (a.countAt p.position)) := by
  apply rule_of_none
  rw [get_bind, List.isEmpty_eq_false_iff.mpr h]
  rfl

/-- The place behind a run of characters of a class. -/
def Place.skip (p : Place) (class_ : Char → Bool) : Place :=
  p.advance (p.rest.takeWhile class_) (p.rest.dropWhile class_)

theorem discard_run
    (class_ : Char → Bool)
    (p : Place)
    (a : Attempts) :
    (discard (run class_) : Peg Unit) p a = (some ((), p.skip class_), a) := by
  exact bind_of_some (fun _ => pure ()) (run_eq class_ p a)

end Characters

section Repetitions

variable {x : Peg α}
variable {v : α}
variable {vs : List α}

theorem repeated_of_none
    (fuel : Nat)
    (h : x p a = (none, b)) :
    repeated x (fuel + 1) p a = (some ([], p), b) := by
  rw [repeated, orElse_of_none (bind_of_none _ h)]
  rfl

theorem repeated_of_some
    {fuel : Nat}
    {q' : Place}
    {b' : Attempts}
    (h : x p a = (some (v, q), b))
    (hrest : repeated x fuel q b = (some (vs, q'), b')) :
    repeated x (fuel + 1) p a = (some (v :: vs, q'), b') := by
  rw [repeated]
  apply orElse_of_some
  rw [bind_of_some _ h, bind_of_some _ hrest]
  rfl

/-- Without a gap at the start, gaps may be allowed before every item. -/
theorem spaced_eq_repeated
    (x : Peg α)
    (fuel : Nat)
    (a : Attempts)
    (hp : p.skip isGap = p) :
    spaced x fuel p a = repeated (do gaps; x) (fuel + 1) p a := by
  have hgaps : (do gaps; x : Peg α) p a = x p a := by
    rw [gaps, bind_of_some _ (discard_run isGap p a), hp]
  rcases hx : x p a with ⟨_ | ⟨v, q⟩, b⟩
  · rw [repeated_of_none fuel (hgaps.trans hx), spaced, orElse_of_none (bind_of_none _ hx)]
    rfl
  · rw [spaced, repeated]
    apply orElse_congr
    rw [bind_of_some _ hx, bind_of_some _ (hgaps.trans hx)]

end Repetitions
end Peg
end GraphMachine
