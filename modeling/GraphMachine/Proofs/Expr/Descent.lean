import GraphMachine.Proofs.Expr.Building
import GraphMachine.Proofs.Expr.TokenRules

/-!
# Parsing expressions follow the automaton

The rules for expressions go down into parentheses, try operators and operands, and go back where
that fails.  What they find is what the automaton reads, and what they put on record is the place
and the list with which the automaton stops.

Reading an expression ends in one of two ways.

* It is read as far as its operands and operators go, and the operators are on record for the place
  behind it.  This is where the automaton holds an operand.
* It is lost: the automaton stops inside it, and the record already says where and why.  The rules
  may still find a shorter expression in front of an operator, but whatever comes next fails behind
  the place on record and leaves the record as it is.
-/

namespace GraphMachine

open Text Peg

/-- The tokens between two places. -/
structure Consumes (p : Place) (ts : List Token) (q : Place) : Prop where
  lexemes : ∃ ls : List Lexeme, ls.map Lexeme.token = ts ∧ p.lexemes = ls ++ q.lexemes
  position_le : p.position + ts.length ≤ q.position
  length_le : q.rest.length + ts.length ≤ p.rest.length
  stop_eq : q.position + byteLength q.rest = p.position + byteLength p.rest

namespace Consumes

variable {p q r : Place}
variable {t : Token}
variable {ts us : List Token}

theorem refl
    (p : Place) :
    Consumes p [] p := by
  exact ⟨⟨[], rfl, rfl⟩, by simp, by simp, rfl⟩

theorem trans
    (h : Consumes p ts q)
    (h' : Consumes q us r) :
    Consumes p (ts ++ us) r := by
  obtain ⟨ls, hls, hp⟩ := h.lexemes
  obtain ⟨ls', hls', hq⟩ := h'.lexemes
  refine ⟨⟨ls ++ ls', by rw [List.map_append, hls, hls'], by rw [hp, hq, List.append_assoc]⟩,
    ?_, ?_, h'.stop_eq.trans h.stop_eq⟩
  · have h₁ := h.position_le
    have h₂ := h'.position_le
    rw [List.length_append]
    omega
  · have h₁ := h.length_le
    have h₂ := h'.length_le
    rw [List.length_append]
    omega

theorem gaps
    (p : Place) :
    Consumes p [] (p.skip isGap) := by
  have hsplit := List.takeWhile_append_dropWhile (p := isGap) (l := p.rest)
  have hbytes := congrArg byteLength hsplit
  have hlength := congrArg List.length hsplit
  rw [byteLength_append] at hbytes
  rw [List.length_append] at hlength
  refine ⟨⟨[], rfl, p.lexemes_skip.symm⟩, ?_, ?_, ?_⟩
  · exact Nat.le_add_right _ _
  · change (p.rest.dropWhile isGap).length + 0 ≤ p.rest.length
    omega
  · change p.position + byteLength (p.rest.takeWhile isGap) +
      byteLength (p.rest.dropWhile isGap) = p.position + byteLength p.rest
    omega

theorem next
    (hp : p.Settled)
    (h : p.next? = some (t, q)) :
    Consumes p [t] q := by
  have hlexemes := Place.lexemes_of_next hp h
  obtain ⟨w, rest, hrest, hspells, rfl⟩ := Place.exists_spells_of_next h
  obtain ⟨c, w, rfl⟩ := List.exists_cons_of_ne_nil hspells.ne_nil
  have hc := c.utf8Size_pos
  refine ⟨⟨[⟨t, p.position⟩], rfl, hlexemes⟩, ?_, ?_, ?_⟩
  · simp only [Place.advance, byteLength_cons, List.length_singleton]
    omega
  · simp only [Place.advance, hrest, List.length_append, List.length_cons, List.length_nil]
    omega
  · simp only [Place.advance, hrest, byteLength_append]
    omega

/-- The automaton reads what stands between two places and goes on behind it. -/
theorem read_eq
    (h : Consumes p ts q)
    (stop : Nat)
    {s s' : Draft.State}
    (hrun : s.run ts = .ok s') :
    s.read stop p.lexemes = s'.read stop q.lexemes := by
  obtain ⟨ls, rfl, hp⟩ := h.lexemes
  rw [hp]
  clear h hp
  induction ls generalizing s with
  | nil =>
      cases hrun
      rfl
  | cons l ls ih =>
      simp only [List.map_cons, Draft.State.run] at hrun
      simp only [List.cons_append, Draft.State.read]
      cases hstep : s.step l.token with
      | ok next =>
          rw [hstep] at hrun
          exact ih hrun
      | error expected =>
          rw [hstep] at hrun
          cases hrun

end Consumes

namespace Pairs

open Draft (State wanted atStart)

def atomTokens (x : Atom) : List Token :=
  List.replicate x.1 (.operator (.arith .sub)) ++ x.2.tokens

/-- The tokens of operators with the operands behind them. -/
def restTokens (xs : List (Operator × Atom)) : List Token :=
  xs.flatMap fun x => .operator x.1 :: atomTokens x.2

theorem tokens_ofList
    (x : Atom)
    (xs : List (Operator × Atom)) :
    (ofList x xs).tokens = atomTokens x ++ restTokens xs := by
  induction xs generalizing x with
  | nil =>
      simp [ofList, tokens, atomTokens, restTokens]
  | cons y xs ih =>
      obtain ⟨op, y⟩ := y
      rw [ofList, tokens, ih]
      simp [atomTokens, restTokens]

theorem tokens_length_pos
    (pairs : Pairs) :
    0 < pairs.tokens.length := by
  have hprimary : ∀ p : Primary, 0 < p.tokens.length := by
    intro p
    cases p <;> simp [Primary.tokens]
  cases pairs with
  | last n p =>
      have := hprimary p
      simp only [tokens, List.length_append]
      omega
  | more n p op rest =>
      simp only [tokens, List.length_append, List.length_cons]
      omega

/-- From a state, the automaton stops where the record says, for the reasons on record. -/
def Reports (stop : Nat) (s : State) (p : Place) (a : Attempts) : Prop :=
  s.read stop p.lexemes = .error (a.position, Expectation.arrange a.rules)

/-- An operator stands behind the gaps at a place. -/
def BeforeOperator (p : Place) : Prop :=
  ∃ op q, (p.skip isGap).next? = some (.operator op, q)

/-- The rules that are tried where an operand has to come, the latest first. -/
def operandRules : List Expectation :=
  [.grouped, .ident, .integer, .minus]

/-- How reading an operand ends. -/
inductive OperandOutcome {α : Type} (tokens : α → List Token) (stop : Nat) (p : Place) :
    Option (α × Place) × Attempts → Prop
  | read
      {x : α}
      {q : Place}
      {a : Attempts}
      (hq : Consumes p (tokens x) q)
      (ha : a.position < q.position) :
      OperandOutcome tokens stop p (some (x, q), a)
  /-- No operand starts here. -/
  | refused
      (h : ∀ fs, (State.wanting fs).read stop p.lexemes = .error (p.position, wanted fs)) :
      OperandOutcome tokens stop p (none, ⟨p.position, operandRules⟩)
  | lost
      {a : Attempts}
      (hlt : p.position < a.position)
      (h : ∀ fs, Reports stop (.wanting fs) p a) :
      OperandOutcome tokens stop p (none, a)

/-- How reading operators with operands behind them ends. -/
inductive RestOutcome (stop : Nat) (p : Place) :
    Option (List (Operator × Atom) × Place) × Attempts → Prop
  | read
      {xs : List (Operator × Atom)}
      {q : Place}
      (hq : Consumes p (restTokens xs) q)
      (hnext : ¬ BeforeOperator q) :
      RestOutcome stop p
        (some (xs, q), ⟨(q.skip isGap).position, Expectation.operators.reverse⟩)
  | lost
      {xs : List (Operator × Atom)}
      {q : Place}
      {a : Attempts}
      (hq : Consumes p (restTokens xs) q)
      (hnext : BeforeOperator q)
      (hlt : (q.skip isGap).position < a.position)
      (h : ∀ e fs, Reports stop (.holding e fs) p a) :
      RestOutcome stop p (some (xs, q), a)

/-- How reading an expression ends. -/
inductive Outcome (stop : Nat) (p : Place) : Option (Pairs × Place) × Attempts → Prop
  | read
      {pairs : Pairs}
      {q : Place}
      (hq : Consumes p pairs.tokens q)
      (hnext : ¬ BeforeOperator q) :
      Outcome stop p
        (some (pairs, q), ⟨(q.skip isGap).position, Expectation.operators.reverse⟩)
  | lost
      {found : Option (Pairs × Place)}
      {a : Attempts}
      (hfound : ∀ pairs q, found = some (pairs, q) →
        BeforeOperator q ∧ (q.skip isGap).position < a.position)
      (ha : p.position < a.position ∨ a = ⟨p.position, [.expression]⟩)
      (h : ∀ fs, atStart fs = true → Reports stop (.wanting fs) p a) :
      Outcome stop p (found, a)

section Automaton

variable {stop : Nat}
variable {p q : Place}
variable {a : Attempts}
variable {ts : List Token}
variable {s s' : State}

/-- What the automaton reports behind some tokens, it reports before them. -/
theorem Reports.before
    (h : Reports stop s' q a)
    (hp : Consumes p ts q)
    (hrun : s.run ts = .ok s') :
    Reports stop s p a := by
  rw [Reports, hp.read_eq stop hrun]
  exact h

theorem exists_run_atom
    (fs : List Draft.Frame)
    (x : Atom) :
    ∃ e fs', (State.wanting fs).run (atomTokens x) = .ok (.holding e fs') := by
  obtain ⟨t, hrun, -⟩ :=
    Draft.exists_run_primary (List.replicate x.1 .minus ++ fs) x.2
  rw [Draft.complete_minuses] at hrun
  obtain ⟨e, fs', hcomplete, -⟩ := Draft.exists_complete_eq (Draft.negated x.1 t) fs
  exact ⟨e, fs', by rw [atomTokens, Draft.run_minuses, hrun, hcomplete]⟩

/-- The record of the rules for operands says what an operand could have started with. -/
theorem Reports.of_refused
    {fs : List Draft.Frame}
    (hfs : atStart fs = false)
    (h : (State.wanting fs).read stop p.lexemes = .error (p.position, wanted fs)) :
    Reports stop (.wanting fs) p ⟨p.position, operandRules⟩ := by
  rw [Reports, h, wanted, if_neg (by simp [hfs])]
  rfl

/-- Where nothing that can follow an operand comes, the automaton stops. -/
theorem read_holding
    {e : Draft}
    {fs : List Draft.Frame}
    (hp : p.Settled)
    (hstop : p.position + byteLength p.rest = stop)
    (hoperator : ∀ op q, p.next? ≠ some (.operator op, q))
    (hclosing : ∀ t rest, Draft.reduce 0 e fs = (t, .group :: rest) →
      ∀ q, p.next? ≠ some (.closing, q))
    (hend : ∀ t, Draft.reduce 0 e fs = (t, []) → p.rest ≠ []) :
    (State.holding e fs).read stop p.lexemes = .error (p.position, Draft.continuation fs) := by
  cases hnext : p.next? with
  | none =>
      have hrest := Place.next?_eq_none_iff.mp hnext
      have hfinish : (State.holding e fs).finish = .error (Draft.continuation fs) := by
        simp only [State.finish]
        split
        · next t hreduce => exact absurd hrest (hend t hreduce)
        · rfl
      rw [hrest, byteLength_nil, Nat.add_zero] at hstop
      have hlexemes : p.lexemes = [] := by
        rw [Place.lexemes, hrest]
        rfl
      rw [hlexemes, State.read, hfinish, hstop]
  | some found =>
      obtain ⟨t, q⟩ := found
      have hstep : (State.holding e fs).step t = .error (Draft.continuation fs) := by
        cases t with
        | operator op => exact absurd hnext (hoperator op q)
        | closing =>
            simp only [State.step]
            split
            · next inner rest hreduce => exact absurd hnext (hclosing inner rest hreduce q)
            · rfl
        | integer digits => rfl
        | ident name => rfl
        | opening => rfl
        | stray c => rfl
      rw [Place.lexemes_of_next hp hnext, State.read, hstep]

/-- Where no operand starts, the automaton stops. -/
theorem read_wanting
    (fs : List Draft.Frame)
    (hp : p.Settled)
    (hstop : p.position + byteLength p.rest = stop)
    (hinteger : ∀ digits q, p.next? ≠ some (.integer digits, q))
    (hident : ∀ name q, p.next? ≠ some (.ident name, q))
    (hopening : ∀ q, p.next? ≠ some (.opening, q))
    (hminus : ∀ q, p.next? ≠ some (.operator (.arith .sub), q)) :
    (State.wanting fs).read stop p.lexemes = .error (p.position, wanted fs) := by
  cases hnext : p.next? with
  | none =>
      have hrest := Place.next?_eq_none_iff.mp hnext
      rw [hrest, byteLength_nil, Nat.add_zero] at hstop
      have hlexemes : p.lexemes = [] := by
        rw [Place.lexemes, hrest]
        rfl
      rw [hlexemes, State.read, hstop]
      rfl
  | some found =>
      obtain ⟨t, q⟩ := found
      have hstep : (State.wanting fs).step t = .error (wanted fs) := by
        cases t with
        | operator op =>
            cases op with
            | compare op => rfl
            | arith op =>
                cases op with
                | sub => exact absurd hnext (hminus q)
                | _ => rfl
        | integer digits => exact absurd hnext (hinteger digits q)
        | ident name => exact absurd hnext (hident name q)
        | opening => exact absurd hnext (hopening q)
        | closing => rfl
        | stray c => rfl
      rw [Place.lexemes_of_next hp hnext, State.read, hstep]

end Automaton

/-- An expression is read at every place with less than so much text left. -/
def ReadsBelow (stop fuel : Nat) (x : Peg Pairs) : Prop :=
  ∀ p a, p.Settled → a.Fresh p.position → p.rest.length < fuel →
    p.position + byteLength p.rest = stop → Outcome stop p (x p a)

section Operands

variable {p q : Place}
variable {a : Attempts}
variable {stop fuel : Nat}

/-- As many minus signs are taken as there are, and the rule for another one has failed behind
them. -/
theorem exists_minuses
    (fuel : Nat)
    (hfuel : p.rest.length < fuel)
    (ha : a.Fresh (p.skip isGap).position) :
    ∃ signs q,
      repeated (do gaps; minus) fuel p a =
        (some (signs, q), ⟨(q.skip isGap).position, [.minus]⟩) ∧
      Consumes p (List.replicate signs.length (.operator (.arith .sub))) q ∧
      (signs = [] → q = p) ∧
      ∀ r, (q.skip isGap).next? ≠ some (.operator (.arith .sub), r) := by
  induction fuel generalizing p a with
  | zero =>
      omega
  | succ fuel ih =>
      have hgaps : (gaps : Peg Unit) p a = (some ((), p.skip isGap), a) := discard_run isGap p a
      by_cases hnext : ∃ q, (p.skip isGap).next? = some (.operator (.arith .sub), q)
      · obtain ⟨q, hnext⟩ := hnext
        have hq := Consumes.next p.settled_skip hnext
        have hminus : (do gaps; minus : Peg Unit) p a = (some ((), q), a) := by
          rw [bind_of_some _ hgaps]
          exact minus_of_next a hnext
        have hlength := ((Consumes.gaps p).trans hq).length_le
        have hposition := hq.position_le
        have hafter := (Consumes.gaps q).position_le
        simp only [List.length_append, List.length_cons, List.length_nil] at hlength hposition
        simp only [List.length_nil] at hafter
        obtain ⟨signs, r, hrest, hr, -, hlast⟩ :=
          ih (p := q) (a := a) (by omega) (ha.mono (by omega))
        refine ⟨() :: signs, r, repeated_of_some hminus hrest, ?_, by simp, hlast⟩
        exact ((Consumes.gaps p).trans hq).trans hr
      · rw [not_exists] at hnext
        have hminus : (do gaps; minus : Peg Unit) p a =
            (none, ⟨(p.skip isGap).position, [.minus]⟩) := by
          rw [bind_of_some _ hgaps, minus_of_ne a hnext, ha.fail_eq]
        exact ⟨[], p, repeated_of_none fuel hminus, .refl p, fun _ => rfl, hnext⟩

section Parentheses

variable {inner : Peg Pairs}
variable {pairs : Pairs}
variable {r : Place}
variable {b : Attempts}

/-- Inside its parentheses, an expression is read from behind the gaps on. -/
theorem grouped_of_none
    (hnext : p.next? = some (.opening, q))
    (hinner : inner (q.skip isGap) a = (none, b)) :
    grouped inner p a = (none, b.fail .grouped p.position (a.countAt p.position)) := by
  apply rule_of_none
  rw [bind_of_some _ (opening_of_next a hnext), gaps, bind_of_some _ (discard_run isGap q a),
    bind_of_none _ hinner]

theorem grouped_of_closing
    {r' : Place}
    (hnext : p.next? = some (.opening, q))
    (hinner : inner (q.skip isGap) a = (some (pairs, r), b))
    (hclosing : (r.skip isGap).next? = some (.closing, r')) :
    grouped inner p a = (some (.grouped pairs, r'), b) := by
  apply rule_of_some
  rw [bind_of_some _ (opening_of_next a hnext), gaps, bind_of_some _ (discard_run isGap q a),
    bind_of_some _ hinner, bind_of_some _ (discard_run isGap r b),
    bind_of_some _ (closing_of_next b hclosing)]
  rfl

theorem grouped_of_not_closing
    (hnext : p.next? = some (.opening, q))
    (hinner : inner (q.skip isGap) a = (some (pairs, r), b))
    (hclosing : ∀ r', (r.skip isGap).next? ≠ some (.closing, r')) :
    grouped inner p a = (none, b.fail .grouped p.position (a.countAt p.position)) := by
  apply rule_of_none
  rw [bind_of_some _ (opening_of_next a hnext), gaps, bind_of_some _ (discard_run isGap q a),
    bind_of_some _ hinner, bind_of_some _ (discard_run isGap r b),
    bind_of_none _ (closing_of_ne b hclosing)]

end Parentheses

/-- An open parenthesis has to be closed behind the row that was read inside it: the automaton holds
the row, inside one parenthesis more. -/
theorem reports_unclosed
    {pairs : Pairs}
    {r : Place}
    (hr : Consumes q pairs.tokens (r.skip isGap))
    (hstop : q.position + byteLength q.rest = stop)
    (hoperator : ¬ BeforeOperator r)
    (hclosing : ∀ r', (r.skip isGap).next? ≠ some (.closing, r'))
    (fs : List Draft.Frame) :
    Reports stop (.wanting (.group :: fs)) q
      ⟨(r.skip isGap).position, Expectation.operators.reverse⟩ := by
  obtain ⟨e, gs, t, hrun, hreduce, -⟩ := Draft.exists_run_pairs (.group :: fs) rfl pairs []
  have hnesting := Draft.nesting_reduce 0 e gs
  rw [hreduce] at hnesting
  have hopen : Draft.nesting gs ≠ 0 := by
    rw [← hnesting]
    exact Nat.succ_ne_zero _
  have hread : (State.holding e gs).read stop (r.skip isGap).lexemes =
      .error ((r.skip isGap).position, Draft.continuation gs) := by
    refine read_holding r.settled_skip (hr.stop_eq.trans hstop) ?_ (fun t rest _ => hclosing) ?_
    · exact fun op r' h => hoperator ⟨op, r', h⟩
    · intro t' hnil
      rw [hreduce] at hnil
      cases hnil
  have hreport : Reports stop (.holding e gs) (r.skip isGap)
      ⟨(r.skip isGap).position, Expectation.operators.reverse⟩ := by
    rw [Reports, hread, Draft.continuation, if_neg hopen]
    rfl
  exact hreport.before hr hrun

/-- Parentheses are read, or lost, as the expression inside them. -/
theorem grouped_outcome
    {inner : Peg Pairs}
    {rules : List Expectation}
    (hinner : ReadsBelow stop fuel inner)
    (hp : p.Settled)
    (hfuel : p.rest.length ≤ fuel)
    (hstop : p.position + byteLength p.rest = stop)
    (hnext : p.next? = some (.opening, q)) :
    OperandOutcome Primary.tokens stop p (grouped inner p ⟨p.position, rules⟩) := by
  have hq : Consumes p [.opening] (q.skip isGap) :=
    (Consumes.next hp hnext).trans (Consumes.gaps q)
  have hposition : p.position + 1 ≤ (q.skip isGap).position := hq.position_le
  have hlength : (q.skip isGap).rest.length + 1 ≤ p.rest.length := hq.length_le
  have houtcome := hinner (q.skip isGap) ⟨p.position, rules⟩ q.settled_skip (.inl hposition)
    (by omega) (hq.stop_eq.trans hstop)
  rcases hfound : inner (q.skip isGap) ⟨p.position, rules⟩ with ⟨found, b⟩
  rw [hfound] at houtcome
  cases houtcome with
  | @read pairs r hr hoperator =>
      have hgaps := Consumes.gaps r
      have hbefore : p.position < (r.skip isGap).position := by
        have h₁ := hr.position_le
        have h₂ := hgaps.position_le
        omega
      by_cases hclosing : ∃ r', (r.skip isGap).next? = some (.closing, r')
      · obtain ⟨r', hclosing⟩ := hclosing
        rw [grouped_of_closing hnext hfound hclosing]
        have hr' := Consumes.next r.settled_skip hclosing
        refine .read ?_ hr'.position_le
        have hall := (hq.trans hr).trans (hgaps.trans hr')
        simpa [Primary.tokens] using hall
      · rw [not_exists] at hclosing
        rw [grouped_of_not_closing hnext hfound hclosing, Attempts.fail_of_gt _ hbefore]
        have hrow : Consumes (q.skip isGap) pairs.tokens (r.skip isGap) := by
          simpa using hr.trans hgaps
        refine .lost hbefore fun fs => ?_
        exact (reports_unclosed hrow (hq.stop_eq.trans hstop) hoperator hclosing fs).before hq rfl
  | @lost found b hfailed hb hreports =>
      have hbefore : p.position < b.position := by
        rcases hb with hlt | rfl
        · omega
        · exact hposition
      have hnone : grouped inner p ⟨p.position, rules⟩ = (none, b) := by
        cases found with
        | none => rw [grouped_of_none hnext hfound, Attempts.fail_of_gt _ hbefore]
        | some read =>
            obtain ⟨pairs, r⟩ := read
            obtain ⟨⟨op, r', hoperator⟩, -⟩ := hfailed pairs r rfl
            rw [grouped_of_not_closing hnext hfound (by simp [hoperator]),
              Attempts.fail_of_gt _ hbefore]
      rw [hnone]
      exact .lost hbefore fun fs => (hreports (.group :: fs) rfl).before hq rfl

/-- Without its minus signs, an operand is read by the rule for the next token. -/
theorem primary_outcome
    {inner : Peg Pairs}
    (hinner : ReadsBelow stop fuel inner)
    (hp : p.Settled)
    (hfuel : p.rest.length ≤ fuel)
    (hstop : p.position + byteLength p.rest = stop)
    (hminus : ∀ q, p.next? ≠ some (.operator (.arith .sub), q)) :
    OperandOutcome Primary.tokens stop p
      ((integer <|> ident <|> grouped inner) p ⟨p.position, [.minus]⟩) := by
  by_cases hinteger : ∃ digits q, p.next? = some (.integer digits, q)
  · obtain ⟨digits, q, hnext⟩ := hinteger
    have hq := Consumes.next hp hnext
    rw [orElse_of_some (integer_of_next _ hnext)]
    exact .read hq hq.position_le
  simp only [not_exists] at hinteger
  rw [orElse_of_none (integer_of_ne _ hinteger), Attempts.countAt_self, Attempts.fail_self]
  by_cases hident : ∃ name q, p.next? = some (.ident name, q)
  · obtain ⟨name, q, hnext⟩ := hident
    have hq := Consumes.next hp hnext
    rw [orElse_of_some (ident_of_next _ hnext)]
    exact .read hq hq.position_le
  simp only [not_exists] at hident
  rw [orElse_of_none (ident_of_ne _ hident), Attempts.countAt_self, Attempts.fail_self]
  by_cases hopening : ∃ q, p.next? = some (.opening, q)
  · obtain ⟨q, hnext⟩ := hopening
    exact grouped_outcome hinner hp hfuel hstop hnext
  rw [not_exists] at hopening
  have hgrouped : ∀ a, grouped inner p a =
      (none, a.fail .grouped p.position (a.countAt p.position)) :=
    fun a => rule_of_none _ (bind_of_none _ (opening_of_ne a hopening))
  rw [hgrouped, Attempts.countAt_self, Attempts.fail_self]
  exact .refused fun fs => read_wanting fs hp hstop hinteger hident hopening hminus

/-- An operand is read with the minus signs before it. -/
theorem atom_outcome
    {inner : Peg Pairs}
    (hinner : ReadsBelow stop fuel inner)
    (hp : p.Settled)
    (ha : a.Fresh p.position)
    (hfuel : p.rest.length ≤ fuel)
    (hstop : p.position + byteLength p.rest = stop) :
    OperandOutcome atomTokens stop p (atom (grouped inner) fuel p a) := by
  obtain ⟨signs, q, hsigns, hq, hnone, hminus⟩ :=
    exists_minuses (p := p) (a := a) (fuel + 1) (by omega) (by rwa [hp.skip_eq])
  have hr := hq.trans (Consumes.gaps q)
  rw [List.append_nil] at hr
  have hlength := hr.length_le
  have houtcome := primary_outcome hinner q.settled_skip (by omega) (hr.stop_eq.trans hstop) hminus
  have hatom : atom (grouped inner) fuel p a =
      ((integer <|> ident <|> grouped inner) >>= fun operand => pure (signs.length, operand))
        (q.skip isGap) ⟨(q.skip isGap).position, [.minus]⟩ := by
    rw [atom, bind_of_some _ ((spaced_eq_repeated minus fuel a hp.skip_eq).trans hsigns), gaps,
      bind_of_some _ (discard_run isGap q _)]
  have hrun : ∀ fs, (State.wanting fs).run
      (List.replicate signs.length (.operator (.arith .sub))) =
        .ok (.wanting (List.replicate signs.length .minus ++ fs)) := by
    intro fs
    have hminuses := Draft.run_minuses signs.length fs []
    rwa [List.append_nil] at hminuses
  rcases hfound : (integer <|> ident <|> grouped inner) (q.skip isGap)
    ⟨(q.skip isGap).position, [.minus]⟩ with ⟨found, b⟩
  rw [hfound] at houtcome
  cases houtcome with
  | @read x r b hx hb =>
      rw [hatom, bind_of_some _ hfound]
      exact .read (hr.trans hx) hb
  | refused hread =>
      rw [hatom, bind_of_none _ hfound]
      cases signs with
      | nil =>
          obtain rfl := hnone rfl
          rw [hp.skip_eq] at hread ⊢
          exact .refused hread
      | cons sign signs =>
          have hposition := hr.position_le
          rw [List.length_replicate, List.length_cons] at hposition
          have hlt : p.position < (q.skip isGap).position := by omega
          refine .lost hlt fun fs => ?_
          exact (Reports.of_refused rfl (hread _)).before hr (hrun fs)
  | @lost b hlt hreports =>
      rw [hatom, bind_of_none _ hfound]
      have hposition := hr.position_le
      exact .lost (by omega) fun fs => (hreports _).before hr (hrun fs)

end Operands

section Rows

variable {p : Place}
variable {a : Attempts}
variable {stop : Nat}

/-- An operator and the operand behind it come before what is read of a row. -/
theorem RestOutcome.cons
    {op : Operator}
    {x : Atom}
    {xs : List (Operator × Atom)}
    {q r u : Place}
    (hq : Consumes p [.operator op] q)
    (hx : Consumes q (atomTokens x) r)
    (h : RestOutcome stop r (some (xs, u), a)) :
    RestOutcome stop p (some ((op, x) :: xs, u), a) := by
  cases h with
  | read hxs hlast =>
      refine .read ?_ hlast
      simpa [restTokens] using hq.trans (hx.trans hxs)
  | lost hxs hlast hlt hreports =>
      refine .lost ?_ hlast hlt fun e fs => ?_
      · simpa [restTokens] using hq.trans (hx.trans hxs)
      · obtain ⟨l, rest, hwant⟩ : ∃ l rest, (State.holding e fs).run [.operator op] =
            .ok (.wanting (.left l op :: rest)) := ⟨_, _, rfl⟩
        obtain ⟨e', fs', hhold⟩ := exists_run_atom (.left l op :: rest) x
        exact ((hreports e' fs').before hx hhold).before hq hwant

/-- An operator without an operand is given back, and the record points behind it. -/
theorem RestOutcome.of_reports
    {op : Operator}
    {q : Place}
    (hnext : BeforeOperator p)
    (hq : Consumes p [.operator op] q)
    (hlt : (p.skip isGap).position < a.position)
    (h : ∀ l fs, Reports stop (.wanting (.left l op :: fs)) q a) :
    RestOutcome stop p (some ([], p), a) := by
  refine .lost (.refl p) hnext hlt fun e fs => ?_
  exact (h _ _).before hq rfl

theorem operation_of_next
    {operand : Peg Atom}
    {op : Operator}
    {q : Place}
    {b : Attempts}
    (hop : operator (p.skip isGap) a = (some (op, q), b)) :
    (do gaps; operation operand : Peg (Operator × Atom)) p a =
      (operand >>= fun x => pure (op, x)) (q.skip isGap) b := by
  rw [gaps, bind_of_some _ (discard_run isGap p a), operation, bind_of_some _ hop, gaps,
    bind_of_some _ (discard_run isGap q b)]

/-- Operators are read with the operands behind them, one after the other. -/
theorem rest_outcome
    {operand : Peg Atom}
    {bound : Nat}
    (hoperand : ∀ p a, p.Settled → a.Fresh p.position → p.rest.length < bound →
      p.position + byteLength p.rest = stop → OperandOutcome atomTokens stop p (operand p a))
    (fuel : Nat)
    (hfuel : p.rest.length < fuel)
    (hbound : p.rest.length ≤ bound)
    (ha : a.Fresh (p.skip isGap).position)
    (hstop : p.position + byteLength p.rest = stop) :
    RestOutcome stop p (repeated (do gaps; operation operand) fuel p a) := by
  induction fuel generalizing p a with
  | zero =>
      omega
  | succ fuel ih =>
      by_cases hbefore : BeforeOperator p
      · obtain ⟨op, q, hnext⟩ := id hbefore
        obtain ⟨b, hb, hop⟩ := exists_operator_of_next hnext ha.position_le
        have hafter := (Consumes.next p.settled_skip hnext).trans (Consumes.gaps q)
        have hq : Consumes p [.operator op] (q.skip isGap) := (Consumes.gaps p).trans hafter
        have hlength : (q.skip isGap).rest.length + 1 ≤ p.rest.length := hq.length_le
        have hposition : (p.skip isGap).position + 1 ≤ (q.skip isGap).position :=
          hafter.position_le
        have houtcome := hoperand (q.skip isGap) b q.settled_skip (.inl (by omega)) (by omega)
          (hq.stop_eq.trans hstop)
        rcases hfound : operand (q.skip isGap) b with ⟨found, c⟩
        rw [hfound] at houtcome
        cases houtcome with
        | @read x r c hx hc =>
            have hitem := (operation_of_next hop).trans (bind_of_some _ hfound)
            have hlength' := hx.length_le
            have hgaps' := (Consumes.gaps r).position_le
            have hrest := ih (p := r) (a := c) (by omega) (by omega)
              (.inl (Nat.lt_of_lt_of_le hc hgaps'))
              (hx.stop_eq.trans (hq.stop_eq.trans hstop))
            rcases hmore : repeated (do gaps; operation operand) fuel r c with ⟨_ | ⟨xs, u⟩, d⟩
            · rw [hmore] at hrest
              cases hrest
            · rw [hmore] at hrest
              rw [repeated_of_some hitem hmore]
              exact .cons hq hx hrest
        | refused hread =>
            rw [repeated_of_none fuel ((operation_of_next hop).trans (bind_of_none _ hfound))]
            exact .of_reports hbefore hq hposition fun l fs => .of_refused rfl (hread _)
        | @lost c hlt hreports =>
            rw [repeated_of_none fuel ((operation_of_next hop).trans (bind_of_none _ hfound))]
            exact .of_reports hbefore hq (by omega) fun l fs => hreports _
      · have hnone : ∀ op q, (p.skip isGap).next? ≠ some (.operator op, q) :=
          fun op q h => hbefore ⟨op, q, h⟩
        have hoperation : (do gaps; operation operand : Peg (Operator × Atom)) p a =
            (none, ⟨(p.skip isGap).position, Expectation.operators.reverse⟩) := by
          rw [gaps, bind_of_some _ (discard_run isGap p a), operation,
            bind_of_none _ (operator_of_ne hnone ha)]
        rw [repeated_of_none fuel hoperation]
        exact .read (.refl p) hbefore

theorem expression_of_some
    {fuel : Nat}
    {q r : Place}
    {b c : Attempts}
    {x : Atom}
    {xs : List (Operator × Atom)}
    (hfirst : atom (grouped (expression fuel)) fuel p a = (some (x, q), b))
    (hrest : spaced (operation (atom (grouped (expression fuel)) fuel)) fuel (q.skip isGap) b =
      (some (xs, r), c)) :
    expression (fuel + 1) p a = (some (ofList x xs, r), c) := by
  apply rule_of_some
  rw [bind_of_some _ hfirst, gaps, bind_of_some _ (discard_run isGap q b), bind_of_some _ hrest]
  rfl

/-- An expression is an operand and the operators with operands behind it. -/
theorem readsBelow_expression
    (stop fuel : Nat) :
    ReadsBelow stop fuel (expression fuel) := by
  induction fuel with
  | zero =>
      intro p a hp ha hlt
      omega
  | succ fuel ih =>
      intro p a hp ha hlt hstop
      have hatom := atom_outcome ih hp ha (by omega) hstop
      rcases hfound : atom (grouped (expression fuel)) fuel p a with ⟨found, b⟩
      rw [hfound] at hatom
      cases hatom with
      | @read x q b hx hb =>
          have hgaps := Consumes.gaps q
          have hq : Consumes p (atomTokens x) (q.skip isGap) := by
            simpa using hx.trans hgaps
          have hlength := hq.length_le
          have hposition := hgaps.position_le
          have hrest := rest_outcome (p := q.skip isGap) (a := b)
            (fun p a hp ha hlt hstop => atom_outcome ih hp ha (Nat.le_of_lt_succ hlt) hstop)
            (fuel + 1) (by omega) (by omega)
            (.inl (by rw [q.settled_skip.skip_eq]; omega)) (hq.stop_eq.trans hstop)
          rw [← spaced_eq_repeated _ _ _ q.settled_skip.skip_eq] at hrest
          rcases hmore : spaced (operation (atom (grouped (expression fuel)) fuel)) fuel
            (q.skip isGap) b with ⟨more, c⟩
          rw [hmore] at hrest
          cases hrest with
          | @read xs r hxs hlast =>
              rw [expression_of_some hfound hmore]
              refine .read ?_ hlast
              rw [tokens_ofList]
              exact hq.trans hxs
          | @lost xs r c hxs hlast hlt' hreports =>
              have hbefore := (hq.trans (hxs.trans (Consumes.gaps r))).position_le
              rw [expression_of_some hfound hmore]
              refine .lost ?_ (.inl (by omega)) fun fs _ => ?_
              · rintro _ _ ⟨⟩
                exact ⟨hlast, hlt'⟩
              · obtain ⟨e, fs', hhold⟩ := exists_run_atom fs x
                exact (hreports e fs').before hq hhold
      | refused hread =>
          have hbody : expression (fuel + 1) p a = (none, ⟨p.position, [.expression]⟩) := by
            refine (rule_of_none _ (bind_of_none _ hfound)).trans ?_
            rw [ha.countAt_eq, Attempts.fail_zero _ (by decide)]
          rw [hbody]
          refine .lost (by simp) (.inr rfl) fun fs hfs => ?_
          rw [Reports, hread fs, wanted, if_pos hfs]
          rfl
      | @lost b hlt' hreports =>
          have hbody : expression (fuel + 1) p a = (none, b) := by
            refine (rule_of_none _ (bind_of_none _ hfound)).trans ?_
            rw [Attempts.fail_of_gt _ hlt']
          rw [hbody]
          exact .lost (by simp) (.inl hlt') fun fs _ => hreports fs

end Rows

section Texts

variable {fuel : Nat}
variable {p q : Place}
variable {a b : Attempts}
variable {pairs : Pairs}

theorem main_of_none
    (h : expression fuel (p.skip isGap) a = (none, b)) :
    main fuel p a = (none, b.fail .main p.position (a.countAt p.position)) := by
  apply rule_of_none
  rw [gaps, bind_of_some _ (discard_run isGap p a), bind_of_none _ h]

theorem main_of_end
    (h : expression fuel (p.skip isGap) a = (some (pairs, q), b))
    (hend : (q.skip isGap).rest = []) :
    main fuel p a = (some (pairs, q.skip isGap), b) := by
  apply rule_of_some
  rw [gaps, bind_of_some _ (discard_run isGap p a), bind_of_some _ h,
    bind_of_some _ (discard_run isGap q b), bind_of_some _ (endOfText_of_nil hend)]
  rfl

theorem main_of_not_end
    (h : expression fuel (p.skip isGap) a = (some (pairs, q), b))
    (hend : (q.skip isGap).rest ≠ []) :
    main fuel p a =
      (none, (b.fail .endOfText (q.skip isGap).position (b.countAt (q.skip isGap).position)).fail
        .main p.position (a.countAt p.position)) := by
  apply rule_of_none
  rw [gaps, bind_of_some _ (discard_run isGap p a), bind_of_some _ h,
    bind_of_some _ (discard_run isGap q b), bind_of_none _ (endOfText_of_ne_nil hend)]

/-- The automaton holds a row that was read from the start of a text, with its draft. -/
theorem exists_read_of_consumes
    {text : List Char}
    (h : Consumes ⟨text, 0⟩ pairs.tokens q) :
    ∃ e gs t,
      Draft.parse text = (State.holding e gs).read (byteLength text) q.lexemes ∧
      Draft.reduce 0 e gs = (t, []) ∧
      Draft.nesting gs = 0 ∧
      ∀ maxDepth, t.toExpr maxDepth = Builder.expression maxDepth 0 pairs := by
  obtain ⟨e, gs, t, hrun, hreduce, hexpr⟩ := Draft.exists_run_pairs [] rfl pairs []
  have hnesting := Draft.nesting_reduce 0 e gs
  rw [hreduce] at hnesting
  refine ⟨e, gs, t, h.read_eq (byteLength text) hrun, hreduce, hnesting.symm, fun maxDepth => ?_⟩
  rw [hexpr maxDepth, Builder.expression, Builder.within_climb maxDepth (by omega)]
  rfl

/-- Where a row is read from the start of a text and no operator follows, the text ends there or is
refused there. -/
theorem parse_cases_of_read
    {text : List Char}
    (hfound : expression (text.length + 1) (Place.skip ⟨text, 0⟩ isGap) .initial =
      (some (pairs, q), ⟨(q.skip isGap).position, Expectation.operators.reverse⟩))
    (hq : Consumes ⟨text, 0⟩ pairs.tokens (q.skip isGap))
    (hoperator : ¬ BeforeOperator q) :
    (∃ pairs t,
      parse text = .ok pairs ∧
      Draft.parse text = .ok t ∧
      ∀ maxDepth, t.toExpr maxDepth = Builder.expression maxDepth 0 pairs) ∨
    (∃ refusal, parse text = .error refusal ∧ Draft.parse text = .error refusal) := by
  obtain ⟨e, gs, t, hdraft, hreduce, hnesting, hexpr⟩ := exists_read_of_consumes hq
  by_cases hend : (q.skip isGap).rest = []
  · left
    refine ⟨pairs, t, ?_, ?_, hexpr⟩
    · rw [parse, Peg.parse, main_of_end hfound hend]
    · have hlexemes : (q.skip isGap).lexemes = [] := by
        rw [Place.lexemes, hend]
        rfl
      rw [hdraft, hlexemes, State.read, State.finish, hreduce]
  · right
    have hbehind : 0 < (q.skip isGap).position := by
      have htokens := tokens_length_pos pairs
      have hposition := hq.position_le
      omega
    have hread : (State.holding e gs).read (byteLength text) (q.skip isGap).lexemes =
        .error ((q.skip isGap).position, Draft.continuation gs) := by
      refine read_holding q.settled_skip (hq.stop_eq.trans (Nat.zero_add _)) ?_ ?_ (fun _ _ => hend)
      · exact fun op q' h => hoperator ⟨op, q', h⟩
      · intro t' rest hgroup
        rw [hreduce] at hgroup
        cases hgroup
    refine ⟨_, ?_, hdraft.trans hread⟩
    rw [parse, Peg.parse, main_of_not_end hfound hend, Attempts.countAt_self,
      Attempts.fail_self, Attempts.fail_of_gt _ hbehind, Draft.continuation, if_pos hnesting]
    rfl

/-- A text whose expression is lost is refused with the record of the expression. -/
theorem main_of_lost
    {text : List Char}
    {found : Option (Pairs × Place)}
    (hfound : expression fuel (Place.skip ⟨text, 0⟩ isGap) .initial = (found, b))
    (hfailed : ∀ pairs q, found = some (pairs, q) →
      BeforeOperator q ∧ (q.skip isGap).position < b.position)
    (hb : (Place.skip ⟨text, 0⟩ isGap).position < b.position ∨
      b = ⟨(Place.skip ⟨text, 0⟩ isGap).position, [.expression]⟩) :
    main fuel ⟨text, 0⟩ .initial = (none, b) := by
  cases found with
  | none =>
      rw [main_of_none hfound]
      rcases hb with hlt | rfl
      · rw [Attempts.fail_of_gt _ (Nat.lt_of_le_of_lt (Nat.zero_le _) hlt)]
      · rcases Nat.eq_zero_or_pos (Place.skip ⟨text, 0⟩ isGap).position with hzero | hpos
        · rw [hzero]
          rfl
        · rw [Attempts.fail_of_gt _ hpos]
  | some read =>
      obtain ⟨pairs, q⟩ := read
      obtain ⟨⟨op, q', hnext⟩, hlt⟩ := hfailed pairs q rfl
      have hend : (q.skip isGap).rest ≠ [] := by
        intro hnil
        rw [Place.next?_eq_none_iff.mpr hnil] at hnext
        cases hnext
      rw [main_of_not_end hfound hend, Attempts.fail_of_gt _ hlt,
        Attempts.fail_of_gt _ (Nat.lt_of_le_of_lt (Nat.zero_le _) hlt)]

/-- A text is read as a row with the draft of the automaton, or it is refused with its error. -/
theorem parse_cases
    (text : List Char) :
    (∃ pairs t,
      parse text = .ok pairs ∧
      Draft.parse text = .ok t ∧
      ∀ maxDepth, t.toExpr maxDepth = Builder.expression maxDepth 0 pairs) ∨
    (∃ refusal, parse text = .error refusal ∧ Draft.parse text = .error refusal) := by
  have hstart := Consumes.gaps ⟨text, 0⟩
  have hfresh : Attempts.initial.Fresh (Place.skip ⟨text, 0⟩ isGap).position := by
    rcases Nat.eq_zero_or_pos (Place.skip ⟨text, 0⟩ isGap).position with hzero | hpos
    · exact .inr (by rw [hzero]; rfl)
    · exact .inl hpos
  have houtcome := readsBelow_expression (byteLength text) (text.length + 1) _ .initial
    (Place.settled_skip ⟨text, 0⟩) hfresh (Nat.lt_succ_of_le hstart.length_le)
    (hstart.stop_eq.trans (Nat.zero_add _))
  rcases hfound : expression (text.length + 1) (Place.skip ⟨text, 0⟩ isGap) .initial with
    ⟨found, b⟩
  rw [hfound] at houtcome
  cases houtcome with
  | @read pairs q hq hoperator =>
      have hall := hstart.trans (hq.trans (Consumes.gaps q))
      rw [List.nil_append, List.append_nil] at hall
      exact parse_cases_of_read hfound hall hoperator
  | @lost found b hfailed hb hreports =>
      right
      refine ⟨(b.position, Expectation.arrange b.rules), ?_, (hreports [] rfl).before hstart rfl⟩
      rw [parse, Peg.parse, main_of_lost hfound hfailed hb]

end Texts
end Pairs

namespace Expr

/-- Reading a text is running the automaton over its tokens. -/
theorem parse_eq
    (text : String)
    (maxDepth : Nat) :
    parse text maxDepth =
      match Draft.parse text.toList with
      | .error (position, expected) => .error (.invalidExpression text position expected)
      | .ok t => t.toExpr maxDepth := by
  rcases Pairs.parse_cases text.toList with
    ⟨pairs, t, hpairs, hdraft, hexpr⟩ | ⟨⟨position, expected⟩, hpairs, hdraft⟩
  · rw [parse, hpairs, hdraft]
    exact (hexpr maxDepth).symm
  · rw [parse, hpairs, hdraft]
    rfl

end Expr
end GraphMachine
