import GraphMachine.Proofs.Expr.Lexing

/-!
# The reading automaton follows the grammar

The automaton accepts exactly the texts of the grammar, and builds the tree that the text derives.

* Completeness: a derived text takes the automaton from wanting an operand to holding one.  Its
  operand and frames need not be the derived tree yet, but they become it as soon as the waiting
  operators of the level are applied.
* Soundness: the frames of a state that was reached describe the text that was read, and each
  token keeps them doing so.

Both directions together show that a text derives at most one tree.
-/

namespace GraphMachine

open Text

namespace Draft

/-- Whether an operand of a level can complete the top frame: it stands after no minus sign, and a
left operand that waits for it has an operator of a lower level. -/
def Admits (level : Nat) : List Frame → Prop
  | .minus :: _ => False
  | .left _ op :: _ => op.level < level
  | _ => True

theorem Admits.mono
    {low high : Nat}
    {fs : List Frame}
    (hfs : Admits low fs)
    (hle : low ≤ high) :
    Admits high fs := by
  unfold Admits at hfs ⊢
  split
  · exact hfs
  · exact Nat.lt_of_lt_of_le hfs hle
  · trivial

/-- Without a minus sign on top, a primary is the operand that is held. -/
theorem Admits.complete_eq
    {level : Nat}
    {fs : List Frame}
    (hfs : Admits level fs)
    (e : Draft) :
    complete e fs = .holding e fs := by
  cases fs with
  | nil =>
      rfl
  | cons f fs =>
      cases f with
      | group => rfl
      | minus => exact hfs.elim
      | left l op => rfl

/-- A primary is held, with the minus signs before it applied. -/
theorem exists_complete_eq
    (e : Draft)
    (fs : List Frame) :
    ∃ e' fs', complete e fs = .holding e' fs' ∧ nesting fs' = nesting fs := by
  fun_induction complete e fs with
  | case1 e fs ih => exact ih
  | case2 e fs _ => exact ⟨e, fs, rfl, rfl⟩

/-- Waiting operators of lower levels are not applied. -/
theorem Admits.reduce_eq
    {level : Nat}
    {fs : List Frame}
    (hfs : Admits level fs)
    (e : Draft) :
    reduce level e fs = (e, fs) := by
  cases fs with
  | nil =>
      rfl
  | cons f fs =>
      cases f with
      | group => rfl
      | minus => rfl
      | left l op =>
          have hlt : op.level < level := hfs
          simp [reduce, Nat.not_le.mpr hlt]

theorem nesting_reduce
    (level : Nat)
    (e : Draft)
    (fs : List Frame) :
    nesting (reduce level e fs).2 = nesting fs := by
  fun_induction reduce level e fs with
  | case1 e l op fs hle ih => exact ih
  | case2 e l op fs hle => rfl
  | case3 e fs _ => rfl

theorem one_le_level
    (op : Operator) :
    1 ≤ op.level := by
  cases op with
  | arith op => cases op <;> decide
  | compare op => cases op <;> decide

theorem level_lt_five
    (op : Operator) :
    op.level < 5 := by
  cases op with
  | arith op => cases op <;> decide
  | compare op => cases op <;> decide

namespace State

def run : State → List Token → Except (List Expectation) State
  | s, [] => .ok s
  | s, token :: rest =>
      match s.step token with
      | .ok next => run next rest
      | .error expected => .error expected

theorem run_cons_of_step
    {s next : State}
    {token : Token}
    (hstep : s.step token = .ok next)
    (rest : List Token) :
    run s (token :: rest) = run next rest := by
  simp [run, hstep]

theorem run_append
    (s : State)
    (ts ts' : List Token) :
    s.run (ts ++ ts') = (s.run ts).bind fun mid => mid.run ts' := by
  induction ts generalizing s with
  | nil =>
      rfl
  | cons t ts ih =>
      simp only [List.cons_append, State.run]
      cases s.step t with
      | ok next => exact ih next
      | error expected => rfl

/-- A text is read to its end if all its tokens are read and the last state is final. -/
theorem read_eq_ok_iff
    (stop : Nat)
    (s : State)
    (ls : List Lexeme)
    (t : Draft) :
    read stop s ls = .ok t ↔
      ∃ last, run s (ls.map Lexeme.token) = .ok last ∧ last.finish = .ok t := by
  induction ls generalizing s with
  | nil =>
      simp only [read, List.map_nil, run, Except.ok.injEq, exists_eq_left']
      cases s.finish <;> simp
  | cons l ls ih =>
      simp only [read, List.map_cons, run]
      cases s.step l.token with
      | ok next => exact ih next
      | error expected => simp

end State

section Completeness

open Token

/-- From these frames the automaton reads a text as one primary. -/
def ReadsPrimary (w : List Char) (t : Draft) (fs : List Frame) (rest : List Char) : Prop :=
  State.run (.wanting fs) (tokens (w ++ rest)) = State.run (complete t fs) (tokens rest)

/-- From these frames the automaton reads a text up to an operand from which the tree is made by
applying the waiting operators of the level. -/
def ReadsLevel (level : Nat) (w : List Char) (t : Draft) (fs : List Frame)
    (rest : List Char) : Prop :=
  ∃ e gs,
    State.run (.wanting fs) (tokens (w ++ rest)) = State.run (.holding e gs) (tokens rest) ∧
    ∀ m ≤ level, reduce m e gs = reduce m t fs

theorem ReadsPrimary.readsLevel
    {level : Nat}
    {w rest : List Char}
    {t : Draft}
    {fs : List Frame}
    (hread : ReadsPrimary w t fs rest)
    (hfs : Admits level fs) :
    ReadsLevel level w t fs rest := by
  refine ⟨t, fs, ?_, fun _ _ => rfl⟩
  unfold ReadsPrimary at hread
  rw [hread, hfs.complete_eq]

theorem Spells.readsPrimary
    {w rest : List Char}
    {t : Draft}
    {fs : List Frame}
    (hw : Spells (nesting fs) w t)
    (hrest : Stops rest) :
    ReadsPrimary w t fs rest := by
  unfold ReadsPrimary
  cases hw with
  | integer hw =>
      rw [tokens_numeral hw hrest]
      exact State.run_cons_of_step rfl _
  | ident hw =>
      rw [tokens_identifier hw hrest]
      exact State.run_cons_of_step rfl _

theorem readsPrimary_group
    {u w v rest : List Char}
    {t : Draft}
    {fs : List Frame}
    (hu : Gaps u)
    (hv : Gaps v)
    (hread : ReadsLevel 1 w t (.group :: fs) (v ++ ')' :: rest)) :
    ReadsPrimary ('(' :: (u ++ w ++ v ++ [')'])) t fs rest := by
  obtain ⟨e, gs, hrun, hreduce⟩ := hread
  have hclose : State.step (.holding e gs) .closing = .ok (complete t fs) := by
    have hzero : reduce 0 e gs = (t, .group :: fs) := hreduce 0 (by omega)
    simp [State.step, hzero]
  have htext :
      '(' :: (u ++ w ++ v ++ [')']) ++ rest =
        '(' :: (u ++ (w ++ (v ++ ')' :: rest))) := by
    simp
  unfold ReadsPrimary
  rw [htext, tokens_opening, State.run_cons_of_step rfl, tokens_gaps _ hu]
  rw [hrun, tokens_gaps _ hv, tokens_closing, State.run_cons_of_step hclose]

theorem readsPrimary_neg
    {u w rest : List Char}
    {t : Draft}
    {fs : List Frame}
    (hu : Gaps u)
    (hread : ReadsPrimary w t (.minus :: fs) rest)
    (hhead : ∀ c ∈ (u ++ (w ++ rest)).head?, c ≠ '=') :
    ReadsPrimary ('-' :: (u ++ w)) (.neg t) fs rest := by
  unfold ReadsPrimary at hread ⊢
  have htext :
      '-' :: (u ++ w) ++ rest =
        (Operator.arith .sub).symbol.toList ++ (u ++ (w ++ rest)) := by
    simp [Operator.symbol]
  rw [htext, tokens_operator _ hhead, State.run_cons_of_step rfl, tokens_gaps _ hu, hread]
  rfl

theorem readsLevel_binary
    {op : Operator}
    {w₁ u v w₂ rest : List Char}
    {l r : Draft}
    {fs : List Frame}
    (hfs : Admits op.level fs)
    (hu : Gaps u)
    (hv : Gaps v)
    (hl : ReadsLevel op.level w₁ l fs (u ++ (op.symbol.toList ++ (v ++ (w₂ ++ rest)))))
    (hr : ReadsLevel (op.level + 1) w₂ r (.left l op :: fs) rest)
    (hhead : ∀ c ∈ (v ++ (w₂ ++ rest)).head?, c ≠ '=') :
    ReadsLevel op.level (w₁ ++ u ++ op.symbol.toList ++ v ++ w₂) (.binary op l r) fs rest := by
  obtain ⟨e₁, gs₁, hrun₁, hreduce₁⟩ := hl
  obtain ⟨e₂, gs₂, hrun₂, hreduce₂⟩ := hr
  have hoperator :
      State.step (.holding e₁ gs₁) (.operator op) = .ok (.wanting (.left l op :: fs)) := by
    have hleft : reduce op.level e₁ gs₁ = (l, fs) := by
      rw [hreduce₁ op.level (by omega), hfs.reduce_eq]
    simp [State.step, hleft]
  refine ⟨e₂, gs₂, ?_, ?_⟩
  · have htext :
        w₁ ++ u ++ op.symbol.toList ++ v ++ w₂ ++ rest =
          w₁ ++ (u ++ (op.symbol.toList ++ (v ++ (w₂ ++ rest)))) := by
      simp
    rw [htext, hrun₁, tokens_gaps _ hu, tokens_operator _ hhead]
    rw [State.run_cons_of_step hoperator, tokens_gaps _ hv, hrun₂]
  · intro m hm
    rw [hreduce₂ m (by omega)]
    simp [reduce, hm]

/-- No text of the grammar starts with an equals sign, so none can turn `<` into `<=`. -/
theorem head_of_derives
    {level nesting : Nat}
    {w : List Char}
    {t : Draft}
    (hw : grammar.Derives level nesting w t) :
    ∃ c cs, w = c :: cs ∧ c ≠ '=' := by
  induction hw with
  | @leaf _ w _ hleaf =>
      have hword : w ≠ [] ∧ ∀ c ∈ w, isWordChar c = true := by
        cases hleaf with
        | integer hw => exact ⟨hw.1, hw.isWordChar⟩
        | ident hw => exact ⟨hw.ne_nil, hw.isWordChar⟩
      cases w with
      | nil =>
          exact absurd rfl hword.1
      | cons c cs =>
          refine ⟨c, cs, rfl, ?_⟩
          rintro rfl
          exact absurd (hword.2 '=' (by simp)) (by decide)
  | group hu hw hv ih =>
      exact ⟨'(', _, rfl, by decide⟩
  | neg hu hw ih =>
      exact ⟨'-', _, rfl, by decide⟩
  | binary hop hl hu hv hr ihl ihr =>
      obtain ⟨c, cs, rfl, hc⟩ := ihl
      exact ⟨c, _, rfl, hc⟩
  | lift hw ih =>
      exact ih

theorem head_ne_equals
    {level nesting : Nat}
    {v w : List Char}
    {t : Draft}
    (hv : Gaps v)
    (hw : grammar.Derives level nesting w t)
    (rest : List Char) :
    ∀ c ∈ (v ++ (w ++ rest)).head?, c ≠ '=' := by
  intro c hc
  cases v with
  | nil =>
      obtain ⟨d, ds, rfl, hd⟩ := head_of_derives hw
      simp only [List.nil_append, List.cons_append, List.head?_cons, Option.mem_some_iff] at hc
      subst hc
      exact hd
  | cons d v =>
      simp only [List.cons_append, List.head?_cons, Option.mem_some_iff] at hc
      subst hc
      rintro rfl
      exact absurd (hv '=' (by simp)) (by decide)

theorem stops_symbol
    (op : Operator)
    (rest : List Char) :
    Stops (op.symbol.toList ++ rest) := by
  cases op with
  | arith op => cases op <;> exact stops_cons (by decide)
  | compare op => cases op <;> exact stops_cons (by decide)

/-- The automaton reads every derived text: as a primary from level 5 on, and on every level from
frames that an operand of the level can complete. -/
theorem reads_of_derives
    {level n : Nat}
    {w : List Char}
    {t : Draft}
    (hw : grammar.Derives level n w t) :
    ∀ (fs : List Frame) (rest : List Char),
      nesting fs = n →
      Stops rest →
      (5 ≤ level → ReadsPrimary w t fs rest) ∧
      (Admits level fs → ReadsLevel level w t fs rest) := by
  induction hw with
  | leaf hleaf =>
      intro fs rest hn hrest
      subst hn
      have hread : ReadsPrimary _ _ fs rest := Spells.readsPrimary hleaf hrest
      exact ⟨fun _ => hread, hread.readsLevel⟩
  | @group n u w v t hu hw hv ih =>
      intro fs rest hn hrest
      have hstops : Stops (v ++ ')' :: rest) := hv.stops_append (stops_cons (by decide))
      have hinner := (ih (.group :: fs) (v ++ ')' :: rest) (by simp [nesting, hn]) hstops).2
      have hread : ReadsPrimary ('(' :: (u ++ w ++ v ++ [')'])) t fs rest :=
        readsPrimary_group hu hv (hinner trivial)
      exact ⟨fun _ => hread, hread.readsLevel⟩
  | neg hu hw ih =>
      intro fs rest hn hrest
      have hinner := (ih (.minus :: fs) rest (by simp [nesting, hn]) hrest).1 (by omega)
      have hread : ReadsPrimary _ _ fs rest :=
        readsPrimary_neg hu hinner (head_ne_equals hu hw rest)
      exact ⟨fun _ => hread, hread.readsLevel⟩
  | @binary _ n _ op w₁ u v w₂ l r hop hl hu hv hr ihl ihr =>
      obtain ⟨rfl, rfl⟩ := Grammar.mem_operators_iff.mp hop
      intro fs rest hn hrest
      have hlevel := level_lt_five op
      refine ⟨fun h => absurd h (by omega), ?_⟩
      intro hfs
      -- The right operand is read with its left one on top of the frames.
      have hright :=
        (ihr (.left l op :: fs) rest (by simp [nesting, hn]) hrest).2 (Nat.lt_succ_self _)
      have hstops : Stops (u ++ (op.symbol.toList ++ (v ++ (w₂ ++ rest)))) :=
        hu.stops_append (stops_symbol op _)
      have hleft := (ihl fs _ hn hstops).2 hfs
      exact readsLevel_binary hfs hu hv hleft hright (head_ne_equals hv hr rest)
  | lift hw ih =>
      intro fs rest hn hrest
      obtain ⟨hprimary, hlevel⟩ := ih fs rest hn hrest
      refine ⟨fun h => hprimary (by omega), ?_⟩
      intro hfs
      obtain ⟨e, gs, hrun, hreduce⟩ := hlevel (hfs.mono (by omega))
      exact ⟨e, gs, hrun, fun m hm => hreduce m (by omega)⟩

/-- Every sentence is read, and gives the tree that it derives. -/
theorem parse_of_sentence
    {text : List Char}
    {t : Draft}
    (htext : grammar.Sentence text t) :
    parse text = .ok t := by
  obtain ⟨u, w, v, hu, hw, hv, rfl⟩ := htext
  have hstops : Stops (v ++ []) := hv.stops_append stops_nil
  obtain ⟨e, gs, hrun, hreduce⟩ := (reads_of_derives hw [] (v ++ []) rfl hstops).2 trivial
  have hfinish : State.finish (.holding e gs) = .ok t := by
    have hzero : reduce 0 e gs = (t, []) := hreduce 0 (by omega)
    simp [State.finish, hzero]
  unfold parse
  rw [State.read_eq_ok_iff]
  refine ⟨.holding e gs, ?_, hfinish⟩
  have htext : u ++ w ++ v = u ++ (w ++ (v ++ [])) := by simp
  change State.run (.wanting []) (tokens (u ++ w ++ v)) = _
  rw [htext, tokens_gaps _ hu, hrun, tokens_gaps _ hv]
  rfl

end Completeness

section Soundness

/-- `Pending fs p` says that the frames stand for the text `p`, which has to go on with an
operand. -/
inductive Pending : List Frame → List Char → Prop
  | nil
      {u : List Char}
      (hu : Gaps u) :
      Pending [] u
  | group
      {fs : List Frame}
      {p u : List Char}
      (hfs : Pending fs p)
      (hu : Gaps u) :
      Pending (.group :: fs) (p ++ '(' :: u)
  | minus
      {fs : List Frame}
      {p u : List Char}
      (hfs : Pending fs p)
      (hu : Gaps u) :
      Pending (.minus :: fs) (p ++ '-' :: u)
  | left
      {fs : List Frame}
      {p w u v : List Char}
      {l : Draft}
      {op : Operator}
      (hfs : Pending fs p)
      (hadmits : Admits op.level fs)
      (hl : grammar.Derives op.level (nesting fs) w l)
      (hu : Gaps u)
      (hv : Gaps v) :
      Pending (.left l op :: fs) (p ++ (w ++ u ++ op.symbol.toList ++ v))

/-- What a state says about the text that was read to reach it. -/
def State.Describes : State → List Char → Prop
  | .wanting fs, p => Pending fs p
  | .holding e fs, p =>
      Admits 5 fs ∧
      ∃ q w u, Pending fs q ∧ grammar.Derives 5 (nesting fs) w e ∧ Gaps u ∧ p = q ++ w ++ u

theorem gaps_singleton
    {c : Char}
    (hc : isGap c = true) :
    Gaps [c] := by
  intro d hd
  rw [List.mem_singleton.mp hd]
  exact hc

theorem Pending.gap
    {fs : List Frame}
    {p : List Char}
    {c : Char}
    (hfs : Pending fs p)
    (hc : isGap c = true) :
    Pending fs (p ++ [c]) := by
  have hgap := gaps_singleton hc
  cases hfs with
  | nil hu =>
      exact .nil (hu.append hgap)
  | group hfs hu =>
      simpa using Pending.group hfs (hu.append hgap)
  | minus hfs hu =>
      simpa using Pending.minus hfs (hu.append hgap)
  | left hfs hadmits hl hu hv =>
      simpa using Pending.left hfs hadmits hl hu (hv.append hgap)

theorem State.Describes.gap
    {s : State}
    {p : List Char}
    {c : Char}
    (hs : s.Describes p)
    (hc : isGap c = true) :
    s.Describes (p ++ [c]) := by
  cases s with
  | wanting fs =>
      exact Pending.gap hs hc
  | holding e fs =>
      obtain ⟨hadmits, q, w, u, hfs, hw, hu, rfl⟩ := hs
      exact ⟨hadmits, q, w, u ++ [c], hfs, hw, hu.append (gaps_singleton hc), by simp⟩

/-- A primary and the minus signs before it are an operand. -/
theorem describes_complete
    {fs : List Frame}
    {p w : List Char}
    {e : Draft}
    (hfs : Pending fs p)
    (hw : grammar.Derives 5 (nesting fs) w e) :
    (complete e fs).Describes (p ++ w) := by
  induction hfs generalizing w e with
  | nil hu =>
      exact ⟨trivial, _, w, [], .nil hu, hw, gaps_nil, by simp⟩
  | group hfs hu ih =>
      exact ⟨trivial, _, w, [], .group hfs hu, hw, gaps_nil, by simp⟩
  | @minus fs p u hfs hu ih =>
      have hneg : grammar.Derives 5 (nesting fs) ('-' :: (u ++ w)) (.neg e) := .neg hu hw
      simpa [complete] using ih hneg
  | left hfs hadmits hl hu hv ih =>
      exact ⟨level_lt_five _, _, w, [], .left hfs hadmits hl hu hv, hw, gaps_nil, by simp⟩

/-- Every operator has a level of at least one, so all waiting operators are applied alike. -/
theorem reduce_zero
    (e : Draft)
    (fs : List Frame) :
    reduce 0 e fs = reduce 1 e fs := by
  induction fs generalizing e with
  | nil =>
      rfl
  | cons f fs ih =>
      cases f with
      | group => rfl
      | minus => rfl
      | left l op => simp [reduce, one_le_level op, ih]

/-- Applying the waiting operators of a level gives an operand of that level. -/
theorem derives_reduce
    {m level : Nat}
    {fs : List Frame}
    {p w : List Char}
    {e : Draft}
    (hfs : Pending fs p)
    (hadmits : Admits level fs)
    (hw : grammar.Derives level (nesting fs) w e)
    (hle : m ≤ level) :
    ∃ q v,
      Pending (reduce m e fs).2 q ∧
      Admits m (reduce m e fs).2 ∧
      grammar.Derives m (nesting (reduce m e fs).2) v (reduce m e fs).1 ∧
      q ++ v = p ++ w := by
  induction hfs generalizing w e level with
  | nil hu =>
      exact ⟨_, w, .nil hu, trivial, hw.lower hle, rfl⟩
  | group hfs hu ih =>
      exact ⟨_, w, .group hfs hu, trivial, hw.lower hle, rfl⟩
  | minus hfs hu ih =>
      exact hadmits.elim
  | @left fs p w₁ u v l op hfs hbelow hl hu hv ih =>
      by_cases hop : m ≤ op.level
      · have hlevel : op.level + 1 ≤ level := hadmits
        have hbinary :
            grammar.Derives op.level (nesting fs) (w₁ ++ u ++ op.symbol.toList ++ v ++ w)
              (.binary op l e) :=
          .operation hl hu hv (hw.lower hlevel)
        obtain ⟨q, v', hpending, hadmits', hderives, htext⟩ := ih hbelow hbinary hop
        have hreduce :
            reduce m e (.left l op :: fs) = reduce m (.binary op l e) fs := by
          simp [reduce, hop]
        rw [hreduce]
        exact ⟨q, v', hpending, hadmits', hderives, by simpa using htext⟩
      · have hreduce : reduce m e (.left l op :: fs) = (e, .left l op :: fs) := by
          simp [reduce, hop]
        rw [hreduce]
        exact ⟨_, w, .left hfs hbelow hl hu hv, by simpa [Admits] using hop, hw.lower hle, rfl⟩

/-- A held operand with all waiting operators of a level applied. -/
theorem State.Describes.reduce
    {m : Nat}
    {e : Draft}
    {fs : List Frame}
    {p : List Char}
    (hs : (State.holding e fs).Describes p)
    (hm : m ≤ 5) :
    ∃ q v u,
      Pending (Draft.reduce m e fs).2 q ∧
      Admits m (Draft.reduce m e fs).2 ∧
      grammar.Derives m (nesting (Draft.reduce m e fs).2) v (Draft.reduce m e fs).1 ∧
      Gaps u ∧
      p = q ++ v ++ u := by
  obtain ⟨hadmits, q, w, u, hfs, hw, hu, rfl⟩ := hs
  obtain ⟨q', v, hpending, hadmits', hderives, htext⟩ := derives_reduce hfs hadmits hw hm
  exact ⟨q', v, u, hpending, hadmits', hderives, hu, by rw [htext]⟩

theorem describes_step_wanting
    {fs : List Frame}
    {next : State}
    {p w : List Char}
    {token : Token}
    (hs : (State.wanting fs).Describes p)
    (hw : Token.Spells w token)
    (hstep : (State.wanting fs).step token = .ok next) :
    next.Describes (p ++ w) := by
  cases hw with
  | integer hw =>
      simp only [State.step, Except.ok.injEq] at hstep
      subst hstep
      exact describes_complete hs (.lift (.leaf (.integer hw)))
  | ident hw =>
      simp only [State.step, Except.ok.injEq] at hstep
      subst hstep
      exact describes_complete hs (.lift (.leaf (.ident hw)))
  | operator op =>
      by_cases hop : op = .arith .sub
      · subst hop
        simp only [State.step, Except.ok.injEq] at hstep
        subst hstep
        exact Pending.minus hs gaps_nil
      · simp [State.step, hop] at hstep
  | opening =>
      simp only [State.step, Except.ok.injEq] at hstep
      subst hstep
      exact Pending.group hs gaps_nil
  | closing =>
      simp [State.step] at hstep
  | stray c =>
      simp [State.step] at hstep

theorem describes_step_holding
    {e : Draft}
    {fs : List Frame}
    {next : State}
    {p w : List Char}
    {token : Token}
    (hs : (State.holding e fs).Describes p)
    (hw : Token.Spells w token)
    (hstep : (State.holding e fs).step token = .ok next) :
    next.Describes (p ++ w) := by
  cases hw with
  | integer hw =>
      simp [State.step] at hstep
  | ident hw =>
      simp [State.step] at hstep
  | operator op =>
      have hlevel := level_lt_five op
      obtain ⟨q, v, u, hpending, hadmits, hderives, hu, rfl⟩ := hs.reduce (m := op.level) (by omega)
      simp only [State.step, Except.ok.injEq] at hstep
      subst hstep
      have hleft := Pending.left hpending hadmits hderives hu gaps_nil
      simp only [List.append_nil, ← List.append_assoc] at hleft
      exact hleft
  | opening =>
      simp [State.step] at hstep
  | closing =>
      obtain ⟨q, v, u, hpending, hadmits, hderives, hu, rfl⟩ := hs.reduce (m := 1) (by omega)
      simp only [State.step, reduce_zero] at hstep
      -- Only an open parenthesis on top lets the closing one be read.
      split at hstep
      · next inner rest hreduce =>
          rw [hreduce] at hpending hderives
          simp only [Except.ok.injEq] at hstep
          subst hstep
          cases hpending with
          | @group _ q₀ u₀ hrest hu₀ =>
              have hgroup :
                  grammar.Derives 5 (nesting rest) ('(' :: (u₀ ++ v ++ u ++ [')'])) inner :=
                .lift (.group hu₀ hderives hu)
              simpa using describes_complete hrest hgroup
      · simp at hstep
  | stray c =>
      simp [State.step] at hstep

/-- Reading a token extends the text that the state describes by the spelling of the token. -/
theorem describes_step
    {s next : State}
    {p w : List Char}
    {token : Token}
    (hs : s.Describes p)
    (hw : Token.Spells w token)
    (hstep : s.step token = .ok next) :
    next.Describes (p ++ w) := by
  cases s with
  | wanting fs => exact describes_step_wanting hs hw hstep
  | holding e fs => exact describes_step_holding hs hw hstep

/-- After all tokens were read, the state describes the whole text. -/
theorem describes_run
    {s last : State}
    {position taken : Nat}
    {p cs : List Char}
    (hs : s.Describes (p ++ cs.take taken))
    (hrun : s.run ((Token.lexFrom position taken cs).map Lexeme.token) = .ok last) :
    last.Describes (p ++ cs) := by
  induction cs generalizing s position taken p with
  | nil =>
      have hlast : s = last := by
        cases taken <;> simpa [Token.lexFrom, State.run] using hrun
      subst hlast
      simpa using hs
  | cons c cs ih =>
      have htext : p ++ c :: cs = (p ++ [c]) ++ cs := by simp
      rw [htext]
      cases taken with
      | succ taken =>
          have hnext : s.Describes ((p ++ [c]) ++ cs.take taken) := by simpa using hs
          exact ih hnext (by simpa [Token.lexFrom] using hrun)
      | zero =>
          have hdescribes : s.Describes p := by simpa using hs
          by_cases hgap : isGap c = true
          · have hnext : s.Describes ((p ++ [c]) ++ cs.take 0) := by
              simpa using hdescribes.gap hgap
            exact ih hnext (by simpa [Token.lexFrom, hgap] using hrun)
          · -- A token starts here; the characters that it takes are described with it.
            simp only [Token.lexFrom, hgap, Bool.false_eq_true, if_false, List.map_cons,
              State.run] at hrun
            cases hstep : s.step (Token.startingAt c cs).1 with
            | error expected =>
                simp [hstep] at hrun
            | ok next =>
                simp only [hstep] at hrun
                have hnext := describes_step hdescribes (Token.spells_startingAt c cs) hstep
                exact ih (by simpa using hnext) hrun

theorem sentence_of_finish
    {s : State}
    {p : List Char}
    {t : Draft}
    (hs : s.Describes p)
    (hfinish : s.finish = .ok t) :
    grammar.Sentence p t := by
  cases s with
  | wanting fs =>
      simp [State.finish] at hfinish
  | holding e fs =>
      obtain ⟨q, v, u, hpending, hadmits, hderives, hu, rfl⟩ := hs.reduce (m := 1) (by omega)
      simp only [State.finish, reduce_zero] at hfinish
      split at hfinish
      · next tree hreduce =>
          rw [hreduce] at hpending hderives
          simp only [Except.ok.injEq] at hfinish
          subst hfinish
          cases hpending with
          | nil hq => exact ⟨q, v, u, hq, hderives, hu, rfl⟩
      · simp at hfinish

/-- Every text that is read derives the tree that it gives. -/
theorem sentence_of_parse
    {text : List Char}
    {t : Draft}
    (hparse : parse text = .ok t) :
    grammar.Sentence text t := by
  unfold parse at hparse
  rw [State.read_eq_ok_iff] at hparse
  obtain ⟨last, hrun, hfinish⟩ := hparse
  have hstart : (State.wanting []).Describes ([] ++ text.take 0) := .nil gaps_nil
  exact sentence_of_finish (describes_run hstart hrun) hfinish

end Soundness

/-- The automaton accepts exactly the sentences of the grammar. -/
theorem parse_eq_ok_iff_sentence
    (text : List Char)
    (t : Draft) :
    parse text = .ok t ↔ grammar.Sentence text t := by
  exact ⟨sentence_of_parse, parse_of_sentence⟩

/-- A text derives at most one tree. -/
theorem sentence_unique
    {text : List Char}
    {t t' : Draft}
    (ht : grammar.Sentence text t)
    (ht' : grammar.Sentence text t') :
    t = t' := by
  have hok : (Except.ok t : Except (Nat × List Expectation) Draft) = .ok t' := by
    rw [← parse_of_sentence ht, parse_of_sentence ht']
  exact Except.ok.inj hok

end Draft

end GraphMachine
