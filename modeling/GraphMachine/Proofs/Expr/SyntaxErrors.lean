import GraphMachine.Proofs.Expr.Cutting
import GraphMachine.Proofs.Expr.Descent

/-!
# Where a text stops being an expression

A text that is no expression is refused at a place.  What stands before the place can still be
completed to an expression, and with the next character it no longer can.  An equals sign or an
exclamation mark after an operand is the exception: it could have begun `==` or `!=`.

The error lists what could have stood there, which depends on the text before the place:

* an expression, at the start of the text and after an open parenthesis;
* what an operand starts with, after a minus sign and after an operator;
* the operators everywhere else, and the end of the text if no parenthesis is open.
-/

namespace GraphMachine

open Text

namespace Draft

/-- The text can be completed to an expression. -/
def Viable (p : List Char) : Prop :=
  ∃ rest t, grammar.Sentence (p ++ rest) t

/-- Only gaps stand between this place and the start of the text or an open parenthesis. -/
inductive StartsExpression : List Char → Prop
  | text
      {u : List Char}
      (hu : Gaps u) :
      StartsExpression u
  | group
      {u : List Char}
      (p : List Char)
      (hu : Gaps u) :
      StartsExpression (p ++ '(' :: u)

/-- Only gaps stand between this place and an operator or a minus sign, which is written like a
difference. -/
inductive FollowsOperator : List Char → Prop
  | operator
      {level : Nat}
      {sign : String}
      {op : Operator}
      {u : List Char}
      (p : List Char)
      (hop : (sign, op) ∈ Grammar.operators level)
      (hu : Gaps u) :
      FollowsOperator (p ++ (sign.toList ++ u))

section Completion

theorem Viable.of_append
    {p w : List Char}
    (h : Viable (p ++ w)) :
    Viable p := by
  obtain ⟨rest, t, ht⟩ := h
  exact ⟨w ++ rest, t, by rwa [← List.append_assoc]⟩

/-- An operand is completed by closing all open parentheses. -/
theorem viable_of_holding
    {e : Draft}
    {fs : List Frame}
    {p : List Char}
    (hs : (State.holding e fs).Describes p) :
    Viable p := by
  induction hnesting : nesting fs using Nat.strong_induction_on generalizing e fs p with
  | _ n ih =>
      obtain ⟨q, v, u, hpending, hadmits, -⟩ := hs.reduce (m := 1) (by omega)
      have hframes := nesting_reduce 1 e fs
      generalize hreduce : (reduce 1 e fs).2 = gs at hpending hadmits hframes
      cases hpending with
      | nil hu =>
          have hfinish : State.finish (.holding e fs) = .ok (reduce 0 e fs).1 := by
            rw [State.finish_eq_ok_iff, reduce_zero]
            exact ⟨hreduce, rfl⟩
          exact ⟨[], _, by simpa using sentence_of_finish hs hfinish⟩
      | @group gs q u hgs hu =>
          have hstep :
              State.step (.holding e fs) .closing = .ok (complete (reduce 0 e fs).1 gs) := by
            rw [State.step_closing_eq_ok_iff, reduce_zero]
            exact ⟨gs, hreduce, rfl⟩
          have hclosed := describes_step hs .closing hstep
          obtain ⟨e', fs', hcomplete, hfs'⟩ := exists_complete_eq (reduce 0 e fs).1 gs
          rw [hcomplete] at hclosed
          rw [nesting] at hframes
          exact (ih (nesting fs') (by omega) hclosed rfl).of_append
      | minus hgs hu =>
          exact hadmits.elim
      | @left _ _ _ _ _ _ op hgs hbelow hl hu hv =>
          have hlevel := one_le_level op
          have hlt : op.level < 1 := hadmits
          omega

/-- Whatever was read can be completed. -/
theorem State.Describes.viable
    {s : State}
    {p : List Char}
    (hs : s.Describes p) :
    Viable p := by
  cases s with
  | holding e fs => exact viable_of_holding hs
  | wanting fs =>
      have hnumeral : Token.Spells ['0'] (.integer ['0']) := .integer (by decide)
      have hzero := describes_step hs hnumeral rfl
      obtain ⟨e, fs', hcomplete, -⟩ := exists_complete_eq (.integer ['0'] (nesting fs)) fs
      rw [hcomplete] at hzero
      exact (viable_of_holding hzero).of_append

end Completion

section Refusal

open Token

/-- Apart from an equals sign and an exclamation mark, the first character of a token says whether
it is a numeral, an identifier, a comparison, or which other token it is. -/
theorem kind_startingAt
    {c : Char}
    (hequals : c ≠ '=')
    (hmark : c ≠ '!')
    (cs cs' : List Char) :
    Token.Like (startingAt c cs).1 (startingAt c cs').1 ∨
      ∃ op op',
        (startingAt c cs).1 = .operator (.compare op) ∧
        (startingAt c cs').1 = .operator (.compare op') := by
  unfold startingAt
  split
  · exact .inl (.integer _ _)
  · next hdigit =>
      split
      · exact .inl (.ident _ _)
      · next hstart =>
          by_cases hcompare : c = '<' ∨ c = '>'
          · right
            have hless (ds : List Char) :
                ∃ op, (symbolAt c ds).1 = .operator (.compare op) := by
              rcases hcompare with rfl | rfl
              · unfold symbolAt
                split <;> simp_all
              · unfold symbolAt
                split <;> simp_all
            obtain ⟨op, hop⟩ := hless cs
            obtain ⟨op', hop'⟩ := hless cs'
            exact ⟨op, op', hop, hop'⟩
          · left
            have hword : isWordChar c = false := by
              cases hc : isWordChar c with
              | false => rfl
              | true => exact absurd (isWordStart_of_isWordChar hc (by simpa using hdigit)) hstart
            -- Any other symbol is a single character.
            have hsingle (ds : List Char) : symbolAt c ds = symbolAt c [] := by
              apply symbolAt_append (u := [])
              intro a ha b hb
              cases ha
              rw [not_or] at hcompare
              simp [joins, hword, hequals, hmark, hcompare]
            rw [hsingle cs, hsingle cs']
            exact .same _

/-- An equals sign or an exclamation mark begins a comparison or nothing. -/
theorem token_of_equals_or_mark
    {c : Char}
    (hc : c = '=' ∨ c = '!')
    (cs : List Char) :
    (∃ op, (startingAt c cs).1 = .operator (.compare op)) ∨ (startingAt c cs).1 = .stray c := by
  rcases hc with rfl | rfl
  · change (∃ op, (symbolAt '=' cs).1 = .operator (.compare op)) ∨ (symbolAt '=' cs).1 = .stray '='
    unfold symbolAt
    split <;> simp_all
  · change (∃ op, (symbolAt '!' cs).1 = .operator (.compare op)) ∨ (symbolAt '!' cs).1 = .stray '!'
    unfold symbolAt
    split <;> simp_all

/-- A state that refuses a token refuses every token of the same kind. -/
theorem exists_step_error_of_kind
    {s : State}
    {t t' : Token}
    {expected : List Expectation}
    (hkind : Token.Like t t' ∨
      ∃ op op', t = .operator (.compare op) ∧ t' = .operator (.compare op'))
    (hstep : s.step t = .error expected) :
    ∃ expected', s.step t' = .error expected' := by
  cases hstep' : s.step t' with
  | error expected' => exact ⟨expected', rfl⟩
  | ok next =>
      rcases hkind with hlike | ⟨op, op', rfl, rfl⟩
      · obtain ⟨next', hnext, -⟩ := (State.Like.refl s).step hlike.symm hstep'
        rw [hstep] at hnext
        cases hnext
      · cases s with
        | wanting fs =>
            obtain ⟨hsub, -⟩ := (State.step_wanting_operator_eq_ok_iff fs _ next).mp hstep'
            cases hsub
        | holding e fs => cases hstep

/-- A token that is refused behind a cut is refused whatever follows its first character, so the
text cannot be completed. -/
theorem not_viable_of_cuts
    {p rest : List Char}
    {c : Char}
    {ts : List Token}
    {last : State}
    (hcuts : Cuts p ts (c :: rest))
    (hrun : (State.wanting []).run ts = .ok last)
    (hgap : isGap c = false)
    (hrefused : ∀ cs, ∃ expected, last.step (startingAt c cs).1 = .error expected) :
    ¬ Viable (p ++ [c]) := by
  rintro ⟨cs, t, ht⟩
  have hreadable : Readable (p ++ c :: cs) :=
    ⟨t, by simpa using parse_of_sentence ht⟩
  rw [readable_iff, (hcuts.exchange cs).tokens_append, State.accepts_append_iff] at hreadable
  obtain ⟨mid, hmid, final, tree, haccepts, -⟩ := hreadable
  rw [hrun] at hmid
  cases hmid
  obtain ⟨expected, hstep⟩ := hrefused cs
  rw [tokens_cons cs hgap] at haccepts
  simp [State.run, hstep] at haccepts

/-- After an operand, an equals sign or an exclamation mark can be completed to a comparison. -/
theorem viable_of_equals_or_mark
    {e : Draft}
    {fs : List Frame}
    {p : List Char}
    {c : Char}
    (hs : (State.holding e fs).Describes p)
    (hc : c = '=' ∨ c = '!') :
    Viable (p ++ [c]) := by
  obtain ⟨op, hop⟩ : ∃ op : Operator, op.symbol.toList = [c, '='] := by
    rcases hc with rfl | rfl
    · exact ⟨.compare .eq, rfl⟩
    · exact ⟨.compare .ne, rfl⟩
  have hnext := describes_step hs (.operator op) rfl
  rw [hop] at hnext
  apply Viable.of_append (w := ['='])
  simpa using hnext.viable

end Refusal

section Places

def State.expected : State → List Expectation
  | .wanting fs => wanted fs
  | .holding _ fs => continuation fs

theorem State.eq_expected_of_step
    {s : State}
    {t : Token}
    {expected : List Expectation}
    (h : s.step t = .error expected) :
    expected = s.expected := by
  cases s with
  | wanting fs =>
      cases t with
      | operator op =>
          cases op with
          | arith op => cases op <;> cases h <;> rfl
          | compare op => cases h; rfl
      | integer w => cases h
      | ident w => cases h
      | opening => cases h
      | closing => cases h; rfl
      | stray c => cases h; rfl
  | holding e fs =>
      cases t with
      | closing =>
          simp only [State.step] at h
          split at h
          · cases h
          · cases h; rfl
      | operator op => cases h
      | integer w => cases h; rfl
      | ident w => cases h; rfl
      | opening => cases h; rfl
      | stray c => cases h; rfl

theorem State.Blocked.eq_expected
    {s : State}
    {expected : List Expectation}
    {rest : List Char}
    (h : s.Blocked expected rest) :
    expected = s.expected := by
  cases rest with
  | cons c cs => exact eq_expected_of_step h.2
  | nil =>
      cases s with
      | wanting fs => cases h; rfl
      | holding e fs =>
          simp only [State.Blocked, State.finish] at h
          split at h
          · cases h
          · cases h; rfl

/-- The last character of a text that is no gap. -/
def lastMark (p : List Char) : Option Char :=
  p.reverse.find? fun c => !isGap c

theorem lastMark_gaps
    {u : List Char}
    (hu : Gaps u) :
    lastMark u = none := by
  rw [lastMark, List.find?_eq_none]
  intro c hc
  simp [hu c (List.mem_reverse.mp hc)]

theorem lastMark_append
    (p : List Char)
    {a : Char}
    {u : List Char}
    (ha : isGap a = false)
    (hu : Gaps u) :
    lastMark (p ++ a :: u) = some a := by
  have hnone : u.reverse.find? (fun c => !isGap c) = none := lastMark_gaps hu
  simp [lastMark, List.find?_append, hnone, ha]

/-- A character that ends an operand. -/
def EndsOperand (a : Char) : Prop :=
  isWordChar a = true ∨ a = ')'

theorem StartsExpression.lastMark_eq
    {p : List Char}
    (h : StartsExpression p) :
    lastMark p = none ∨ lastMark p = some '(' := by
  cases h with
  | text hu => exact .inl (lastMark_gaps hu)
  | group q hu => exact .inr (lastMark_append q (by decide) hu)

theorem FollowsOperator.exists_lastMark
    {p : List Char}
    (h : FollowsOperator p) :
    ∃ (op : Operator) (a : Char), a ∈ op.symbol.toList ∧ lastMark p = some a := by
  cases h with
  | @operator _ _ op u q hop hu =>
      obtain ⟨-, rfl⟩ := Grammar.mem_operators_iff.mp hop
      have hne := op.symbol_ne_nil
      have hmem := List.getLast_mem hne
      refine ⟨op, op.symbol.toList.getLast hne, hmem, ?_⟩
      nth_rewrite 1 [← List.dropLast_append_getLast hne]
      simpa using lastMark_append (q ++ op.symbol.toList.dropLast) (op.isGap_symbol _ hmem) hu

/-- An expression does not start after an operator. -/
theorem StartsExpression.not_followsOperator
    {p : List Char}
    (h : StartsExpression p) :
    ¬ FollowsOperator p := by
  intro hfollows
  obtain ⟨op, a, ha, hmark⟩ := hfollows.exists_lastMark
  rcases h.lastMark_eq with hnone | hopening
  · rw [hnone] at hmark
    cases hmark
  · rw [hopening] at hmark
    cases hmark
    exact (op.noParens_symbol _ ha).1 rfl

/-- Derived texts end with an operand. -/
theorem exists_last_of_derives
    {level n : Nat}
    {w : List Char}
    {t : Draft}
    (hw : grammar.Derives level n w t) :
    ∃ v a, w = v ++ [a] ∧ EndsOperand a := by
  induction hw with
  | @leaf n w t hleaf =>
      have hword : w ≠ [] ∧ ∀ c ∈ w, isWordChar c = true := by
        cases hleaf with
        | integer hw => exact ⟨hw.1, hw.isWordChar⟩
        | ident hw => exact ⟨hw.ne_nil, hw.isWordChar⟩
      exact ⟨w.dropLast, w.getLast hword.1, (List.dropLast_append_getLast hword.1).symm,
        .inl (hword.2 _ (List.getLast_mem hword.1))⟩
  | @group n u w v t hu hw hv ih =>
      exact ⟨'(' :: (u ++ w ++ v), ')', by simp, .inr rfl⟩
  | @neg n u w t hu hw ih =>
      obtain ⟨v, a, rfl, ha⟩ := ih
      exact ⟨'-' :: (u ++ v), a, by simp, ha⟩
  | @binary _ n _ op w₁ u v w₂ l r hop hl hu hv hr ihl ihr =>
      obtain ⟨rfl, rfl⟩ := Grammar.mem_operators_iff.mp hop
      obtain ⟨v₂, a, rfl, ha⟩ := ihr
      exact ⟨w₁ ++ u ++ op.symbol.toList ++ v ++ v₂, a, by simp, ha⟩
  | lift hw ih =>
      exact ih

theorem EndsOperand.isGap
    {a : Char}
    (ha : EndsOperand a) :
    isGap a = false := by
  rcases ha with hword | rfl
  · exact isGap_of_isWordChar hword
  · decide

/-- After an operand a text ends with it, gaps apart. -/
theorem exists_lastMark_of_holding
    {e : Draft}
    {fs : List Frame}
    {p : List Char}
    (hs : (State.holding e fs).Describes p) :
    ∃ a ∈ lastMark p, EndsOperand a := by
  obtain ⟨-, q, w, u, -, hw, hu, rfl⟩ := hs
  obtain ⟨v, a, rfl, ha⟩ := exists_last_of_derives hw
  refine ⟨a, ?_, ha⟩
  have hmark := lastMark_append (q ++ v) ha.isGap hu
  simpa using hmark

theorem not_startsExpression_of_holding
    {e : Draft}
    {fs : List Frame}
    {p : List Char}
    (hs : (State.holding e fs).Describes p) :
    ¬ StartsExpression p := by
  intro hstarts
  obtain ⟨a, hmark, ha⟩ := exists_lastMark_of_holding hs
  rcases hstarts.lastMark_eq with hnone | hopening
  · rw [hnone] at hmark
    cases hmark
  · rw [hopening] at hmark
    cases hmark
    rcases ha with hword | hclosing
    · exact absurd hword (by decide)
    · exact absurd hclosing (by decide)

theorem not_followsOperator_of_holding
    {e : Draft}
    {fs : List Frame}
    {p : List Char}
    (hs : (State.holding e fs).Describes p) :
    ¬ FollowsOperator p := by
  intro hfollows
  obtain ⟨a, hmark, ha⟩ := exists_lastMark_of_holding hs
  obtain ⟨op, b, hb, hmark'⟩ := hfollows.exists_lastMark
  rw [hmark'] at hmark
  cases hmark
  rcases ha with hword | hclosing
  · rw [op.isWordChar_symbol _ hb] at hword
    cases hword
  · exact (op.noParens_symbol _ hb).2 hclosing

/-- Where an operand has to come, an expression starts or an operator stands before the place. -/
theorem place_of_pending
    {fs : List Frame}
    {p : List Char}
    (h : Pending fs p) :
    (StartsExpression p ∧ wanted fs = [.expression]) ∨
      (FollowsOperator p ∧ wanted fs = Expectation.operands) := by
  cases h with
  | nil hu => exact .inl ⟨.text hu, rfl⟩
  | group hfs hu => exact .inl ⟨.group _ hu, rfl⟩
  | minus hfs hu =>
      have hminus : ("-", .arith .sub) ∈ Grammar.operators 3 := by decide
      exact .inr ⟨.operator _ hminus hu, rfl⟩
  | @left fs p w u v l op hfs hadmits hl hu hv =>
      have hplace := FollowsOperator.operator (p ++ (w ++ u)) (Grammar.mem_operators op) hv
      exact .inr ⟨by simpa using hplace, rfl⟩

theorem count_of_pending
    {fs : List Frame}
    {p : List Char}
    (h : Pending fs p) :
    p.count '(' = p.count ')' + nesting fs := by
  induction h with
  | nil hu =>
      simp [hu.noParens.count_eq, nesting]
  | group hfs hu ih =>
      simp [hu.noParens.count_eq, nesting, ih, Nat.add_assoc]
  | minus hfs hu ih =>
      simp [hu.noParens.count_eq, nesting, ih]
  | @left fs p w u v l op hfs hadmits hl hu hv ih =>
      have hbalanced := count_of_derives hl
      simp only [List.count_append, hu.noParens.count_eq, hv.noParens.count_eq,
        op.noParens_symbol.count_eq, nesting, ih]
      omega

/-- The open parentheses of a text are the ones that wait to be closed. -/
theorem count_of_holding
    {e : Draft}
    {fs : List Frame}
    {p : List Char}
    (hs : (State.holding e fs).Describes p) :
    p.count '(' = p.count ')' + nesting fs := by
  obtain ⟨-, q, w, u, hfs, hw, hu, rfl⟩ := hs
  have hopened := count_of_pending hfs
  have hbalanced := count_of_derives hw
  simp only [List.count_append, hu.noParens.count_eq]
  omega

theorem continuation_eq_of_count
    {fs : List Frame}
    {p : List Char}
    (hcount : p.count '(' = p.count ')' + nesting fs) :
    continuation fs =
      (if p.count '(' = p.count ')' then [.endOfText] else []) ++ Expectation.operators := by
  unfold continuation
  by_cases hzero : nesting fs = 0
  · rw [if_pos hzero, if_pos (by omega)]
    rfl
  · rw [if_neg hzero, if_neg (by omega)]
    rfl

end Places

/-- How the error after the text `p` lists what could have stood there. -/
structure Expects (p : List Char) (detail : String) : Prop where
  start : StartsExpression p → detail = "expected expression"
  operand : FollowsOperator p → detail = "expected integer, ident, grouped, or neg"
  operator :
    ¬ StartsExpression p →
    ¬ FollowsOperator p →
    detail =
      if p.count '(' = p.count ')' then
        "expected EOI, eq, ne, le, ge, lt, gt, add, sub, mul, div, or rem"
      else
        "expected eq, ne, le, ge, lt, gt, add, sub, mul, div, or rem"

/-- A state expects what can stand after the text that it describes. -/
theorem State.Describes.expects
    {s : State}
    {p : List Char}
    (hs : s.Describes p) :
    Expects p (Expectation.detail s.expected) := by
  cases s with
  | wanting fs =>
      rcases place_of_pending hs with ⟨hstarts, hwanted⟩ | ⟨hfollows, hwanted⟩
      · refine ⟨fun _ => ?_,
          fun h => absurd h hstarts.not_followsOperator, fun h => absurd hstarts h⟩
        rw [State.expected, hwanted]
        rfl
      · refine ⟨fun h => absurd hfollows h.not_followsOperator,
          fun _ => ?_, fun _ h => absurd hfollows h⟩
        rw [State.expected, hwanted]
        rfl
  | holding e fs =>
      refine ⟨fun h => absurd h (not_startsExpression_of_holding hs),
        fun h => absurd h (not_followsOperator_of_holding hs), fun _ _ => ?_⟩
      rw [State.expected, continuation_eq_of_count (count_of_holding hs)]
      split <;> rfl

/-- A token that is refused where an operand has to come is refused whatever follows its first
character. -/
theorem exists_step_error_wanting
    {fs : List Frame}
    {c : Char}
    {cs : List Char}
    {expected : List Expectation}
    (hstep : (State.wanting fs).step (Token.startingAt c cs).1 = .error expected)
    (cs' : List Char) :
    ∃ expected', (State.wanting fs).step (Token.startingAt c cs').1 = .error expected' := by
  by_cases hc : c = '=' ∨ c = '!'
  · rcases token_of_equals_or_mark hc cs' with ⟨op, htoken⟩ | htoken
    · exact ⟨wanted fs, by rw [htoken]; rfl⟩
    · exact ⟨wanted fs, by rw [htoken]; rfl⟩
  · rw [not_or] at hc
    exact exists_step_error_of_kind (kind_startingAt hc.1 hc.2 cs cs') hstep

/-- With the character at which reading stops, a text can be completed only if the character begins
a comparison. -/
theorem viable_next_iff
    {p rest : List Char}
    {c : Char}
    {ts : List Token}
    {last : State}
    {expected : List Expectation}
    (hcuts : Token.Cuts p ts (c :: rest))
    (hrun : (State.wanting []).run ts = .ok last)
    (hlast : last.Describes p)
    (hblocked : last.Blocked expected (c :: rest)) :
    Viable (p ++ [c]) ↔ (c = '=' ∨ c = '!') ∧ ¬ StartsExpression p ∧ ¬ FollowsOperator p := by
  obtain ⟨hgap, hstep⟩ := hblocked
  cases last with
  | wanting fs =>
      have hno : ¬ Viable (p ++ [c]) :=
        not_viable_of_cuts hcuts hrun hgap (exists_step_error_wanting hstep)
      refine ⟨fun h => absurd h hno, ?_⟩
      rintro ⟨-, hstarts, hfollows⟩
      rcases place_of_pending hlast with ⟨h, -⟩ | ⟨h, -⟩
      · exact absurd h hstarts
      · exact absurd h hfollows
  | holding e fs =>
      constructor
      · intro hviable
        refine ⟨?_, not_startsExpression_of_holding hlast, not_followsOperator_of_holding hlast⟩
        by_contra hc
        rw [not_or] at hc
        refine not_viable_of_cuts hcuts hrun hgap (fun cs => ?_) hviable
        exact exists_step_error_of_kind (kind_startingAt hc.1 hc.2 rest cs) hstep
      · rintro ⟨hc, -, -⟩
        exact viable_of_equals_or_mark hlast hc

end Draft

namespace Expr

open Draft

/-- Reading stops between the texts `p` and `rest`, and the error says so. -/
structure Refuses (text : String) (maxDepth : Nat) (p rest : List Char) (err : EvalError) :
    Prop where
  text_eq : text.toList = p ++ rest
  parse_eq : parse text maxDepth = .error err
  /-- The error points at the place between the two texts. -/
  span_eq : err.span? = some ⟨byteLength p, byteLength p⟩
  message_eq :
    ∃ detail, Expects p detail ∧ err.message = "invalid expression `" ++ text ++ "`: " ++ detail
  /-- What was read can be completed to an expression. -/
  viable : Viable p
  /-- With the next character it cannot, unless that begins a comparison after an operand. -/
  viable_next_iff : ∀ c ∈ rest.head?,
    Viable (p ++ [c]) ↔ (c = '=' ∨ c = '!') ∧ ¬ StartsExpression p ∧ ¬ FollowsOperator p

/-- Every text that is no expression is refused at the first place at which it cannot go on, and the
error lists what could have stood there. -/
theorem refuses_of_not_sentence
    (text : String)
    (maxDepth : Nat)
    (htext : ¬ ∃ t, grammar.Sentence text.toList t) :
    ∃ p rest expected,
      Refuses text maxDepth p rest (.invalidExpression text (byteLength p) expected) := by
  cases hparse : Draft.parse text.toList with
  | ok t => exact absurd ⟨t, sentence_of_parse hparse⟩ htext
  | error stopped =>
      obtain ⟨position, expected⟩ := stopped
      obtain ⟨p, ts, rest, last, htext_eq, hposition, hcuts, hrun, hblocked⟩ :=
        State.exists_cut_of_read (Nat.zero_add _).symm hparse
      have hstart : (State.wanting []).Describes [] := .nil gaps_nil
      have hlast : last.Describes p := hstart.cuts hcuts hrun
      refine ⟨p, rest, expected, htext_eq, ?_, rfl, ⟨_, ?_, rfl⟩, hlast.viable, ?_⟩
      · rw [Nat.zero_add] at hposition
        rw [Expr.parse_eq, hparse, hposition]
      · rw [hblocked.eq_expected]
        exact hlast.expects
      · intro c hc
        cases rest with
        | nil => cases hc
        | cons d rest =>
            cases hc
            exact Draft.viable_next_iff hcuts hrun hlast hblocked

/-- The second equals sign is missing after an operand in an open parenthesis, so reading stops
before the first one, where only an operator could have stood. -/
theorem missingEquals_refused :
    (¬ ∃ t, grammar.Sentence "(x - 1 = 2".toList t) ∧
    (∃ p rest expected,
      Refuses "(x - 1 = 2" 256 p rest (.invalidExpression "(x - 1 = 2" (byteLength p) expected)) ∧
    ∃ err,
      parse "(x - 1 = 2" 256 = .error err ∧
      err.span? = some ⟨7, 7⟩ ∧
      err.message =
        "invalid expression `(x - 1 = 2`: " ++
          "expected eq, ne, le, ge, lt, gt, add, sub, mul, div, or rem" := by
  have herror : Draft.parse "(x - 1 = 2".toList = .error (7, Expectation.operators) := rfl
  have htext : ¬ ∃ t, grammar.Sentence "(x - 1 = 2".toList t := by
    rintro ⟨t, ht⟩
    rw [Draft.parse_of_sentence ht] at herror
    cases herror
  refine ⟨htext, refuses_of_not_sentence _ 256 htext,
    .invalidExpression "(x - 1 = 2" 7 Expectation.operators, ?_, rfl, by decide⟩
  rw [Expr.parse_eq, herror]

end Expr
end GraphMachine
