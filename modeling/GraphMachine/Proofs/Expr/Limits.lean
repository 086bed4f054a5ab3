import GraphMachine.Expr.Eval
import GraphMachine.Proofs.Expr.Descent

/-!
# Limits on expressions

The limits on nesting, on literals and on height decide whether there is a result, and never
which: a draft within the limits has its tree, and a tree within the limit has its value.

With the grammar this gives the texts that are read as expressions, exactly.
-/

namespace GraphMachine

open Text

namespace Decimal

/-- The literals that fit into a word are those up to the largest word. -/
theorem lt_wordBound_iff
    (n : Nat) :
    n < wordBound ↔ (n : Int) ≤ Int64.maxValue.toInt := by
  have hmax : Int64.maxValue.toInt = 9223372036854775807 := by decide
  rw [hmax, wordBound]
  omega

end Decimal

namespace Draft

/-- Every literal is at most the largest word, and no leaf is nested too deeply. -/
def Within (maxDepth : Nat) (t : Draft) : Prop :=
  (∀ digits ∈ t.literals, (Decimal.value digits : Int) ≤ Int64.maxValue.toInt) ∧
  (∀ k ∈ t.nestings, 2 * k + 2 ≤ maxDepth)

theorem within_integer
    (maxDepth : Nat)
    (digits : List Char)
    (nesting : Nat) :
    (integer digits nesting).Within maxDepth ↔
      (Decimal.value digits : Int) ≤ Int64.maxValue.toInt ∧ 2 * nesting + 2 ≤ maxDepth := by
  simp [Within, literals, nestings]

theorem within_ident
    (maxDepth : Nat)
    (name : List Char)
    (nesting : Nat) :
    (ident name nesting).Within maxDepth ↔ 2 * nesting + 2 ≤ maxDepth := by
  simp [Within, literals, nestings]

theorem within_neg
    (maxDepth : Nat)
    (t : Draft) :
    (neg t).Within maxDepth ↔ t.Within maxDepth := by
  rfl

theorem within_binary
    (maxDepth : Nat)
    (op : Operator)
    (l r : Draft) :
    (binary op l r).Within maxDepth ↔ l.Within maxDepth ∧ r.Within maxDepth := by
  simp only [Within, literals, nestings, List.forall_mem_append]
  constructor
  · rintro ⟨⟨hl, hr⟩, hl', hr'⟩
    exact ⟨⟨hl, hl'⟩, hr, hr'⟩
  · rintro ⟨⟨hl, hl'⟩, hr, hr'⟩
    exact ⟨⟨hl, hr⟩, hl', hr'⟩

theorem toExpr_of_within
    {maxDepth : Nat}
    {t : Draft}
    (ht : t.Within maxDepth) :
    t.toExpr maxDepth = .ok t.tree := by
  induction t with
  | integer digits nesting =>
      obtain ⟨hfits, hdeep⟩ := (within_integer maxDepth digits nesting).mp ht
      have hword := (Decimal.lt_wordBound_iff _).mpr hfits
      simp [toExpr, tree, tooDeep, Nat.not_lt.mpr hdeep, Decimal.unsigned?, Decimal.word?, hword]
  | ident name nesting =>
      have hdeep := (within_ident maxDepth name nesting).mp ht
      simp [toExpr, tree, tooDeep, Nat.not_lt.mpr hdeep]
  | neg t ih =>
      have htree := ih ((within_neg maxDepth t).mp ht)
      simp [toExpr, tree, htree]
  | binary op l r ihl ihr =>
      obtain ⟨hl, hr⟩ := (within_binary maxDepth op l r).mp ht
      simp [toExpr, tree, ihl hl, ihr hr]

theorem within_of_toExpr
    {maxDepth : Nat}
    {t : Draft}
    {e : Expr}
    (he : t.toExpr maxDepth = .ok e) :
    t.Within maxDepth := by
  induction t generalizing e with
  | integer digits nesting =>
      rw [within_integer]
      simp only [toExpr, tooDeep, decide_eq_true_eq] at he
      split at he
      · simp at he
      · next hdeep =>
          refine ⟨?_, by omega⟩
          rw [← Decimal.lt_wordBound_iff]
          by_cases hword : Decimal.value digits < Decimal.wordBound
          · exact hword
          · simp [Decimal.unsigned?, Decimal.word?, hword] at he
  | ident name nesting =>
      rw [within_ident]
      simp only [toExpr, tooDeep, decide_eq_true_eq] at he
      split at he
      · simp at he
      · omega
  | neg t ih =>
      rw [within_neg]
      cases ht : t.toExpr maxDepth with
      | error err => simp [toExpr, ht] at he
      | ok operand => exact ih ht
  | binary op l r ihl ihr =>
      rw [within_binary]
      cases hl : l.toExpr maxDepth with
      | error err => simp [toExpr, hl] at he
      | ok left =>
          cases hr : r.toExpr maxDepth with
          | error err => simp [toExpr, hl, hr] at he
          | ok right => exact ⟨ihl hl, ihr hr⟩

/-- A draft gives its tree if it is within the limits, and nothing otherwise. -/
theorem toExpr_eq_ok_iff
    (maxDepth : Nat)
    (t : Draft)
    (e : Expr) :
    t.toExpr maxDepth = .ok e ↔ t.Within maxDepth ∧ t.tree = e := by
  constructor
  · intro he
    have ht := within_of_toExpr he
    refine ⟨ht, ?_⟩
    rw [toExpr_of_within ht] at he
    exact Except.ok.inj he
  · rintro ⟨ht, rfl⟩
    exact toExpr_of_within ht

end Draft

namespace Expr

theorem bind_apply
    {α β : Type}
    (x : EvalM α)
    (f : α → EvalM β)
    (depth : Nat) :
    (x >>= f) depth =
      match x depth with
      | (.ok a, below) => f a below
      | (.error err, below) => (.error err, below) := by
  simp only [bind, ExceptT.bind, ExceptT.mk, StateT.bind]
  cases x depth with
  | mk result below => cases result <;> rfl

theorem nested_apply
    {α : Type}
    {limit depth : Nat}
    {inner : EvalM α}
    {result : Except EvalError α}
    (hdepth : depth < limit)
    (hinner : inner (depth + 1) = (result, depth + 1)) :
    nested limit inner depth = (result, depth) := by
  simp [nested, hdepth, hinner]

/-- Where the limit leaves room for the whole tree, the evaluator finds its value and is back at
the level at which it started. -/
theorem evalM_of_height_le
    (s : Scope)
    (limit : Nat)
    (e : Expr)
    {depth : Nat}
    (hheight : depth + e.height ≤ limit) :
    evalM s limit e depth = (e.value s, depth) := by
  induction e generalizing depth with
  | integer v =>
      simp only [height] at hheight
      exact nested_apply (by omega) rfl
  | ident name =>
      simp only [height] at hheight
      refine nested_apply (by omega) ?_
      rw [bind_apply]
      simp only [value]
      cases s.named name <;> rfl
  | neg e ih =>
      simp only [height] at hheight
      refine nested_apply (by omega) ?_
      rw [bind_apply, ih (by omega)]
      simp only [value]
      cases e.value s <;> rfl
  | binary op l r ihl ihr =>
      simp only [height] at hheight
      refine nested_apply (by omega) ?_
      rw [bind_apply, ihl (by omega)]
      simp only [value]
      cases l.value s with
      | error err =>
          rfl
      | ok a =>
          simp only
          rw [bind_apply, ihr (by omega)]
          cases r.value s with
          | error err =>
              rfl
          | ok b =>
              cases happly : op.apply a b <;> simp [bind, Except.bind, happly] <;> rfl

theorem eval_of_height_le
    {s : Scope}
    {limit : Nat}
    {e : Expr}
    (hheight : e.height ≤ limit) :
    e.eval s limit = e.value s := by
  have heval := evalM_of_height_le s limit e (show 0 + e.height ≤ limit by omega)
  exact congrArg Prod.fst heval

/-- The text of a draft is read as the expression of the draft. -/
theorem parse_eq_toExpr
    {text : String}
    {t : Draft}
    (maxDepth : Nat)
    (ht : Draft.grammar.Sentence text.toList t) :
    parse text maxDepth = t.toExpr maxDepth := by
  rw [parse_eq, Draft.parse_of_sentence ht]

/-- A text is read as an expression exactly if the grammar derives the tree from it, every literal
is at most the largest word and every leaf with `k` parentheses around it has `2 * k + 2` within
the limit.  No text derives two trees. -/
theorem parse_eq_ok_iff
    (text : String)
    (maxDepth : Nat)
    (e : Expr) :
    (parse text maxDepth = .ok e ↔
      ∃ t : Draft,
        Draft.grammar.Sentence text.toList t ∧
        (∀ digits ∈ t.literals, (Decimal.value digits : Int) ≤ Int64.maxValue.toInt) ∧
        (∀ k ∈ t.nestings, 2 * k + 2 ≤ maxDepth) ∧
        t.tree = e) ∧
    (∀ t t' : Draft,
      Draft.grammar.Sentence text.toList t → Draft.grammar.Sentence text.toList t' → t = t') := by
  refine ⟨?_, fun t t' => Draft.sentence_unique⟩
  rw [parse_eq]
  cases hparse : Draft.parse text.toList with
  | error stopped =>
      constructor
      · intro h
        simp at h
      · rintro ⟨t, ht, -⟩
        rw [(Draft.parse_eq_ok_iff_sentence text.toList t).mpr ht] at hparse
        simp at hparse
  | ok draft =>
      have hdraft := (Draft.parse_eq_ok_iff_sentence text.toList draft).mp hparse
      simp only [Draft.toExpr_eq_ok_iff]
      constructor
      · rintro ⟨⟨hliterals, hnestings⟩, htree⟩
        exact ⟨draft, hdraft, hliterals, hnestings, htree⟩
      · rintro ⟨t, ht, hliterals, hnestings, htree⟩
        rw [Draft.sentence_unique hdraft ht]
        exact ⟨⟨hliterals, hnestings⟩, htree⟩

end Expr
end GraphMachine
