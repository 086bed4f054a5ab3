import GraphMachine.Proofs.Expr.Boundaries
import GraphMachine.Proofs.Expr.Reading

/-!
# Which texts are accepted

Whether a text is read as an expression depends on the kinds of its tokens alone, not on the
digits of its numerals or the letters of its identifiers.  Two automata that read tokens of the
same kinds stay alike: they have the same frames up to the operands in them.

So a numeral can be exchanged for another one, and an operand that stands apart from its
neighbours for any other operand, without a change in what is accepted.  Two operands with nothing
between them are never accepted.
-/

namespace GraphMachine

open Text

namespace Draft

/-- Texts that are read as expressions, whatever the size of their literals and their nesting. -/
def Readable (cs : List Char) : Prop :=
  ∃ t, parse cs = .ok t

/-- Frames that differ in their operands at most. -/
inductive Frame.Like : Frame → Frame → Prop
  | group : Like .group .group
  | minus : Like .minus .minus
  | left (l l' : Draft) (op : Operator) : Like (.left l op) (.left l' op)

/-- States that differ in their operands at most. -/
inductive State.Like : State → State → Prop
  | wanting
      {fs fs' : List Frame}
      (hfs : List.Forall₂ Frame.Like fs fs') :
      Like (.wanting fs) (.wanting fs')
  | holding
      (e e' : Draft)
      {fs fs' : List Frame}
      (hfs : List.Forall₂ Frame.Like fs fs') :
      Like (.holding e fs) (.holding e' fs')

theorem Frame.forall₂_like_refl
    (fs : List Frame) :
    List.Forall₂ Frame.Like fs fs := by
  refine List.forall₂_same.mpr fun f _ => ?_
  cases f with
  | group => exact .group
  | minus => exact .minus
  | left l op => exact .left l l op

theorem State.Like.refl
    (s : State) :
    State.Like s s := by
  cases s with
  | wanting fs => exact .wanting (Frame.forall₂_like_refl fs)
  | holding e fs => exact .holding e e (Frame.forall₂_like_refl fs)

theorem like_complete
    {fs fs' : List Frame}
    (hfs : List.Forall₂ Frame.Like fs fs')
    (e e' : Draft) :
    State.Like (complete e fs) (complete e' fs') := by
  induction hfs generalizing e e' with
  | nil =>
      exact .holding e e' .nil
  | cons hf hfs ih =>
      cases hf with
      | group => exact .holding e e' (.cons .group hfs)
      | minus => exact ih _ _
      | left l l' op => exact .holding e e' (.cons (.left l l' op) hfs)

theorem like_reduce
    (level : Nat)
    {fs fs' : List Frame}
    (hfs : List.Forall₂ Frame.Like fs fs')
    (e e' : Draft) :
    List.Forall₂ Frame.Like (reduce level e fs).2 (reduce level e' fs').2 := by
  induction hfs generalizing e e' with
  | nil =>
      exact .nil
  | cons hf hfs ih =>
      cases hf with
      | group => exact .cons .group hfs
      | minus => exact .cons .minus hfs
      | left l l' op =>
          simp only [reduce]
          split
          · exact ih _ _
          · exact .cons (.left l l' op) hfs

namespace State

/-- The frames that a closing parenthesis finds after the waiting operators are applied. -/
theorem step_closing_eq_ok_iff
    (e : Draft)
    (fs : List Frame)
    (next : State) :
    (holding e fs).step .closing = .ok next ↔
      ∃ rest, (reduce 0 e fs).2 = .group :: rest ∧ next = complete (reduce 0 e fs).1 rest := by
  simp only [step]
  split
  · next inner rest heq =>
      rw [heq]
      simp [eq_comm]
  · next hno =>
      simp only [reduceCtorEq, false_iff, not_exists, not_and]
      intro rest hrest
      exact (hno (reduce 0 e fs).1 rest (Prod.ext rfl hrest)).elim

theorem finish_eq_ok_iff
    (e : Draft)
    (fs : List Frame)
    (t : Draft) :
    (holding e fs).finish = .ok t ↔ (reduce 0 e fs).2 = [] ∧ t = (reduce 0 e fs).1 := by
  simp only [finish]
  split
  · next tree heq =>
      rw [heq]
      simp [eq_comm]
  · next hno =>
      simp only [reduceCtorEq, false_iff, not_and]
      intro hnil
      exact (hno (reduce 0 e fs).1 (Prod.ext rfl hnil)).elim

theorem step_wanting_operator_eq_ok_iff
    (fs : List Frame)
    (op : Operator)
    (next : State) :
    (wanting fs).step (.operator op) = .ok next ↔
      op = .arith .sub ∧ next = wanting (.minus :: fs) := by
  cases op with
  | arith op => cases op <;> simp [step, eq_comm]
  | compare op => simp [step]

theorem like_step_wanting
    {fs fs' : List Frame}
    {next : State}
    {t t' : Token}
    (hfs : List.Forall₂ Frame.Like fs fs')
    (ht : Token.Like t t')
    (hstep : (wanting fs).step t = .ok next) :
    ∃ next', (wanting fs').step t' = .ok next' ∧ State.Like next next' := by
  cases ht with
  | integer w w' =>
      cases hstep
      exact ⟨_, rfl, like_complete hfs _ _⟩
  | ident w w' =>
      cases hstep
      exact ⟨_, rfl, like_complete hfs _ _⟩
  | same t =>
      cases t with
      | integer w =>
          cases hstep
          exact ⟨_, rfl, like_complete hfs _ _⟩
      | ident w =>
          cases hstep
          exact ⟨_, rfl, like_complete hfs _ _⟩
      | operator op =>
          obtain ⟨rfl, rfl⟩ := (step_wanting_operator_eq_ok_iff fs op next).mp hstep
          exact ⟨_, rfl, .wanting (.cons .minus hfs)⟩
      | opening =>
          cases hstep
          exact ⟨_, rfl, .wanting (.cons .group hfs)⟩
      | closing =>
          cases hstep
      | stray c =>
          cases hstep

theorem like_step_holding
    (e e' : Draft)
    {fs fs' : List Frame}
    {next : State}
    {t t' : Token}
    (hfs : List.Forall₂ Frame.Like fs fs')
    (ht : Token.Like t t')
    (hstep : (holding e fs).step t = .ok next) :
    ∃ next', (holding e' fs').step t' = .ok next' ∧ State.Like next next' := by
  cases ht with
  | integer w w' =>
      cases hstep
  | ident w w' =>
      cases hstep
  | same t =>
      cases t with
      | operator op =>
          cases hstep
          exact ⟨_, rfl, .wanting (.cons (.left _ _ op) (like_reduce _ hfs e e'))⟩
      | closing =>
          obtain ⟨rest, hrest, rfl⟩ := (step_closing_eq_ok_iff e fs next).mp hstep
          have hreduce := like_reduce 0 hfs e e'
          rw [hrest] at hreduce
          obtain ⟨f, rest', hf, hrest', heq⟩ := List.forall₂_cons_left_iff.mp hreduce
          cases hf
          refine ⟨_, (step_closing_eq_ok_iff e' fs' _).mpr ⟨rest', heq, rfl⟩, ?_⟩
          exact like_complete hrest' _ _
      | integer w =>
          cases hstep
      | ident w =>
          cases hstep
      | opening =>
          cases hstep
      | stray c =>
          cases hstep

/-- Alike automata that read tokens of the same kind stay alike. -/
theorem Like.step
    {s s' next : State}
    {t t' : Token}
    (hs : State.Like s s')
    (ht : Token.Like t t')
    (hstep : s.step t = .ok next) :
    ∃ next', s'.step t' = .ok next' ∧ State.Like next next' := by
  cases hs with
  | wanting hfs => exact like_step_wanting hfs ht hstep
  | holding e e' hfs => exact like_step_holding e e' hfs ht hstep

theorem Like.run
    {s s' last : State}
    {ts ts' : List Token}
    (hs : State.Like s s')
    (hts : List.Forall₂ Token.Like ts ts')
    (hrun : s.run ts = .ok last) :
    ∃ last', s'.run ts' = .ok last' ∧ State.Like last last' := by
  induction hts generalizing s s' with
  | nil =>
      cases hrun
      exact ⟨s', rfl, hs⟩
  | @cons t t' ts ts' ht hts ih =>
      cases hstep : s.step t with
      | error expected =>
          simp [State.run, hstep] at hrun
      | ok next =>
          rw [run_cons_of_step hstep] at hrun
          obtain ⟨next', hstep', hnext⟩ := hs.step ht hstep
          rw [run_cons_of_step hstep']
          exact ih hnext hrun

theorem Like.finish
    {s s' : State}
    {t : Draft}
    (hs : State.Like s s')
    (hfinish : s.finish = .ok t) :
    ∃ t', s'.finish = .ok t' := by
  cases hs with
  | wanting hfs =>
      cases hfinish
  | @holding e e' fs fs' hfs =>
      have hnil := ((finish_eq_ok_iff e fs t).mp hfinish).1
      have hreduce := like_reduce 0 hfs e e'
      rw [hnil] at hreduce
      exact ⟨_, (finish_eq_ok_iff e' fs' _).mpr ⟨List.forall₂_nil_left_iff.mp hreduce, rfl⟩⟩

/-- From this state the tokens are read to the end of an expression. -/
def Accepts (s : State) (ts : List Token) : Prop :=
  ∃ last t, s.run ts = .ok last ∧ last.finish = .ok t

/-- What is accepted depends on the kinds of tokens and on the frames without their operands. -/
theorem Accepts.of_like
    {s s' : State}
    {ts ts' : List Token}
    (haccepts : s.Accepts ts)
    (hs : State.Like s s')
    (hts : List.Forall₂ Token.Like ts ts') :
    s'.Accepts ts' := by
  obtain ⟨last, t, hrun, hfinish⟩ := haccepts
  obtain ⟨last', hrun', hlast⟩ := hs.run hts hrun
  obtain ⟨t', hfinish'⟩ := hlast.finish hfinish
  exact ⟨last', t', hrun', hfinish'⟩

theorem accepts_append_iff
    (s : State)
    (ts ts' : List Token) :
    s.Accepts (ts ++ ts') ↔ ∃ mid, s.run ts = .ok mid ∧ mid.Accepts ts' := by
  unfold Accepts
  rw [run_append]
  cases s.run ts with
  | ok mid => simp [Except.bind]
  | error expected => simp [Except.bind]

/-- After a token that completes an operand the automaton holds one. -/
theorem exists_holding_of_step
    {s next : State}
    {t : Token}
    (ht : t.endsOperand = true)
    (hstep : s.step t = .ok next) :
    ∃ e fs, next = holding e fs := by
  have hcomplete (e : Draft) (fs : List Frame) : ∃ e' fs', complete e fs = holding e' fs' := by
    obtain ⟨e', fs', heq, -⟩ := exists_complete_eq e fs
    exact ⟨e', fs', heq⟩
  cases s with
  | wanting fs =>
      cases t with
      | integer w => cases hstep; exact hcomplete _ _
      | ident w => cases hstep; exact hcomplete _ _
      | closing => cases hstep
      | operator op => cases ht
      | opening => cases ht
      | stray c => cases ht
  | holding e fs =>
      cases t with
      | closing =>
          obtain ⟨rest, _, rfl⟩ := (step_closing_eq_ok_iff e fs next).mp hstep
          exact hcomplete _ _
      | integer w => cases hstep
      | ident w => cases hstep
      | operator op => cases ht
      | opening => cases ht
      | stray c => cases ht

/-- An operand does not begin where one is held. -/
theorem not_accepts_holding
    (e : Draft)
    (fs : List Frame)
    {t : Token}
    (ht : t.beginsOperand = true)
    (ts : List Token) :
    ¬ (holding e fs).Accepts (t :: ts) := by
  rintro ⟨last, tree, hrun, _⟩
  cases t with
  | integer w => cases hrun
  | ident w => cases hrun
  | opening => cases hrun
  | operator op => cases ht
  | closing => cases ht
  | stray c => cases ht

end State

theorem readable_iff
    (cs : List Char) :
    Readable cs ↔ (State.wanting []).Accepts (Token.tokens cs) := by
  unfold Readable parse State.Accepts
  simp only [State.read_eq_ok_iff]
  exact exists_comm

section Exchange

open Token

theorem readable_of_exchange
    {u w w' v : List Char}
    (hw : IsNumeral w)
    (hw' : IsNumeral w')
    (hread : Readable (u ++ (w ++ v))) :
    Readable (u ++ (w' ++ v)) := by
  rw [readable_iff] at hread ⊢
  exact hread.of_like (.refl _) (like_exchange_numeral hw hw' u v)

/-- Exchanging a numeral for another one, wherever it stands, does not change whether a text is
read. -/
theorem readable_exchange_numeral
    {w w' : List Char}
    (hw : IsNumeral w)
    (hw' : IsNumeral w')
    (u v : List Char) :
    Readable (u ++ (w ++ v)) ↔ Readable (u ++ (w' ++ v)) :=
  ⟨readable_of_exchange hw hw', readable_of_exchange hw' hw⟩

/-- Tokens that are read as one primary where an operand has to come, and nowhere else. -/
structure IsPrimary (ts : List Token) : Prop where
  wanting : ∀ fs, ∃ t, (State.wanting fs).run ts = .ok (complete t fs)
  holding : ∀ e fs rest, ¬ (State.holding e fs).Accepts (ts ++ rest)

theorem isPrimary_of_derives
    {w : List Char}
    {b : Char}
    (hw : ∀ n, ∃ t, grammar.Derives 6 n w t)
    (hhead : w.head? = some b)
    (hb : b.isDigit = true ∨ b = '(') :
    IsPrimary (tokens w) where
  wanting := by
    intro fs
    obtain ⟨t, ht⟩ := hw (nesting fs)
    have hread := (reads_of_derives ht fs [] rfl stops_nil).1 (by omega)
    refine ⟨t, ?_⟩
    simpa [ReadsPrimary, State.run] using hread
  holding := by
    intro e fs rest
    obtain ⟨first, ts, htokens, hfirst⟩ := exists_tokens_of_head hhead hb
    rw [htokens]
    exact State.not_accepts_holding e fs hfirst (ts ++ rest)

theorem IsPrimary.accepts_of_exchange
    {ps ps' : List Token}
    (hps : IsPrimary ps)
    (hps' : IsPrimary ps')
    {s : State}
    {ts ts' : List Token}
    (haccepts : s.Accepts (ts ++ (ps ++ ts'))) :
    s.Accepts (ts ++ (ps' ++ ts')) := by
  rw [State.accepts_append_iff] at haccepts ⊢
  obtain ⟨mid, hmid, haccepts⟩ := haccepts
  refine ⟨mid, hmid, ?_⟩
  cases mid with
  | holding e fs =>
      exact absurd haccepts (hps.holding e fs ts')
  | wanting fs =>
      obtain ⟨t, ht⟩ := hps.wanting fs
      obtain ⟨t', ht'⟩ := hps'.wanting fs
      rw [State.accepts_append_iff] at haccepts ⊢
      obtain ⟨next, hnext, haccepts⟩ := haccepts
      rw [ht] at hnext
      cases hnext
      refine ⟨_, ht', haccepts.of_like ?_ (forall₂_like_refl ts')⟩
      exact like_complete (Frame.forall₂_like_refl fs) t t'

/-- Exchanging a primary for another one does not change whether tokens are accepted. -/
theorem IsPrimary.accepts_exchange
    {ps ps' : List Token}
    (hps : IsPrimary ps)
    (hps' : IsPrimary ps')
    (s : State)
    (ts ts' : List Token) :
    s.Accepts (ts ++ (ps ++ ts')) ↔ s.Accepts (ts ++ (ps' ++ ts')) :=
  ⟨hps.accepts_of_exchange hps', hps'.accepts_of_exchange hps⟩

/-- Two operands with nothing between them are not read. -/
theorem not_readable_of_touching
    {u v : List Char}
    {a b : Char}
    (hlast : u.getLast? = some a)
    (ha : isWordChar a = true ∨ a = ')')
    (hhead : v.head? = some b)
    (hb : b.isDigit = true ∨ b = '(')
    (hjoins : joins a b = false) :
    ¬ Readable (u ++ v) := by
  have hapart : Apart u v := by
    intro a' ha' b' hb'
    rw [Option.mem_def, hlast, Option.some.injEq] at ha'
    rw [Option.mem_def, hhead, Option.some.injEq] at hb'
    subst ha' hb'
    exact hjoins
  obtain ⟨ts, t, hts, ht⟩ := exists_tokens_of_getLast hlast ha
  obtain ⟨t', ts', hts', ht'⟩ := exists_tokens_of_head hhead hb
  rw [readable_iff, tokens_append hapart, hts, hts', State.accepts_append_iff]
  rintro ⟨mid, hmid, haccepts⟩
  rw [State.run_append] at hmid
  cases hbefore : (State.wanting []).run ts with
  | error expected =>
      rw [hbefore] at hmid
      cases hmid
  | ok before =>
      rw [hbefore] at hmid
      cases hstep : before.step t with
      | error expected =>
          simp [Except.bind, State.run, hstep] at hmid
      | ok next =>
          simp only [Except.bind, State.run, hstep, Except.ok.injEq] at hmid
          subst hmid
          obtain ⟨e, fs, rfl⟩ := State.exists_holding_of_step ht hstep
          exact State.not_accepts_holding e fs ht' ts' haccepts

end Exchange

end Draft
end GraphMachine
