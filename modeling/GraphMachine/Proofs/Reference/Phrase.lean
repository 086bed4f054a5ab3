import GraphMachine.Proofs.Expr.Grammar
import GraphMachine.Proofs.Reference.Spelling

/-!
# Expressions with references

A phrase is an expression that has references among its leaves.  Its texts are those of the grammar
of expressions, where a leaf may also be a reference in braces in any of its spellings.

The value of a phrase is found without any substitution: a reference has the value of its cell.
-/

namespace GraphMachine

open Text

namespace Text

/-- The largest number of parentheses that are open at once in a text, if so many are open before
it. -/
def deepest : Nat → List Char → Nat
  | opened, [] => opened
  | opened, c :: cs =>
      if c = '(' then
        deepest (opened + 1) cs
      else if c = ')' then
        max opened (deepest (opened - 1) cs)
      else
        deepest opened cs

end Text

/-- Expressions with references. -/
inductive Phrase where
  | integer (value : Int64)
  | ident (name : String)
  | reference (r : Reference)
  | neg (operand : Phrase)
  | binary (op : Operator) (left right : Phrase)
deriving DecidableEq, Repr

namespace Phrase

inductive Spells : Nat → List Char → Phrase → Prop
  | integer
      {nesting : Nat}
      {w : List Char}
      {v : Int64}
      (hw : IsNumeral w)
      (hv : v.toInt = Decimal.value w) :
      Spells nesting w (.integer v)
  | ident
      {nesting : Nat}
      {w : List Char}
      (hw : IsIdentifier w) :
      Spells nesting w (.ident (String.ofList w))
  | reference
      {nesting : Nat}
      {a w b : List Char}
      {r : Reference}
      (ha : Blanks a)
      (hw : Reference.Spells w r)
      (hb : Blanks b) :
      Spells nesting ('\x7b' :: (a ++ w ++ b ++ ['\x7d'])) (.reference r)

/-- The grammar of texts with references. -/
def grammar : Grammar Phrase where
  leaf := Spells
  neg := .neg
  binary := .binary

/-- Number of nodes on the longest way from the root to a leaf. -/
def height : Phrase → Nat
  | integer _ => 1
  | ident _ => 1
  | reference _ => 1
  | neg p => p.height + 1
  | binary _ l r => max l.height r.height + 1

def references : Phrase → List Reference
  | integer _ => []
  | ident _ => []
  | reference r => [r]
  | neg p => p.references
  | binary _ l r => l.references ++ r.references

/-- The value of a phrase, from left to right. -/
def value (s : Scope) : Phrase → Except EvalError Value
  | integer v => .ok (.int v)
  | ident name => do
      let v ← s.named name
      pure (.int v)
  | reference r => do
      let v ← r.read s
      pure (.int v)
  | neg p => do
      let v ← value s p
      pure (.int (-v.toWord))
  | binary op l r => do
      let a ← value s l
      let b ← value s r
      op.apply a b

end Phrase

section Nesting

namespace Text

theorem le_deepest
    (opened : Nat)
    (cs : List Char) :
    opened ≤ deepest opened cs := by
  induction cs generalizing opened with
  | nil =>
      exact Nat.le_refl opened
  | cons c cs ih =>
      unfold deepest
      split
      · exact Nat.le_trans (Nat.le_succ opened) (ih (opened + 1))
      · split
        · exact Nat.le_max_left _ _
        · exact ih opened

theorem NoParens.deepest_append
    {w : List Char}
    (hw : NoParens w)
    (opened : Nat)
    (rest : List Char) :
    deepest opened (w ++ rest) = deepest opened rest := by
  induction w with
  | nil =>
      rfl
  | cons c w ih =>
      have hc := hw c (by simp)
      have htail : NoParens w := fun d hd => hw d (List.mem_cons_of_mem c hd)
      simpa [deepest, hc] using ih htail

end Text

namespace Phrase

theorem noParens_reference
    {w : List Char}
    {r : Reference}
    (hw : Reference.Spells w r) :
    NoParens w := by
  cases hw with
  | current => simp [NoParens]
  | unsigned hw _ => exact noParens_of_isWordChar hw.isWordChar
  | plus hw _ => exact .cons (by decide) (noParens_of_isWordChar hw.isWordChar)
  | minus hw _ => exact .cons (by decide) (noParens_of_isWordChar hw.isWordChar)
  | named hw => exact noParens_of_isWordChar hw.isWordChar

theorem Spells.noParens
    {nesting : Nat}
    {w : List Char}
    {p : Phrase}
    (hw : Spells nesting w p) :
    NoParens w := by
  cases hw with
  | integer hw _ => exact noParens_of_isWordChar hw.isWordChar
  | ident hw => exact noParens_of_isWordChar hw.isWordChar
  | reference ha hw hb =>
      have hclose : NoParens ['\x7d'] := by simp [NoParens]
      have hinner :=
        ((ha.gaps.noParens.append (noParens_reference hw)).append hb.gaps.noParens).append hclose
      exact .cons (by decide) hinner

/-- After the text as many parentheses are open as before it, so what follows starts anew. -/
def Balanced (nesting : Nat) (w : List Char) : Prop :=
  ∀ rest, deepest nesting (w ++ rest) = max (deepest nesting w) (deepest nesting rest)

theorem deepest_group
    {nesting : Nat}
    {u w v : List Char}
    (hu : Gaps u)
    (hw : Balanced (nesting + 1) w)
    (hv : Gaps v)
    (rest : List Char) :
    deepest nesting ('(' :: (u ++ w ++ v ++ [')']) ++ rest) =
      max (deepest (nesting + 1) w) (max (nesting + 1) (deepest nesting rest)) := by
  have htext :
      '(' :: (u ++ w ++ v ++ [')']) ++ rest = '(' :: (u ++ (w ++ (v ++ ')' :: rest))) := by
    simp
  rw [htext, deepest, if_pos rfl, hu.noParens.deepest_append, hw, hv.noParens.deepest_append]
  simp [deepest]

theorem deepest_neg
    {nesting : Nat}
    {u : List Char}
    (hu : Gaps u)
    (w rest : List Char) :
    deepest nesting ('-' :: (u ++ w) ++ rest) = deepest nesting (w ++ rest) := by
  have hsign : NoParens ('-' :: u) := .cons (by decide) hu.noParens
  have htext : '-' :: (u ++ w) ++ rest = ('-' :: u) ++ (w ++ rest) := by simp
  rw [htext, hsign.deepest_append]

theorem deepest_binary
    {nesting : Nat}
    {op : Operator}
    {w₁ u v w₂ : List Char}
    (hw₁ : Balanced nesting w₁)
    (hu : Gaps u)
    (hv : Gaps v)
    (rest : List Char) :
    deepest nesting (w₁ ++ u ++ op.symbol.toList ++ v ++ w₂ ++ rest) =
      max (deepest nesting w₁) (deepest nesting (w₂ ++ rest)) := by
  have hbetween : NoParens (u ++ op.symbol.toList ++ v) :=
    (hu.noParens.append op.noParens_symbol).append hv.noParens
  have htext :
      w₁ ++ u ++ op.symbol.toList ++ v ++ w₂ ++ rest =
        w₁ ++ ((u ++ op.symbol.toList ++ v) ++ (w₂ ++ rest)) := by
    simp
  rw [htext, hw₁, hbetween.deepest_append]

/-- Parentheses are balanced in a derived text. -/
theorem balanced_of_derives
    {level nesting : Nat}
    {w : List Char}
    {p : Phrase}
    (hw : grammar.Derives level nesting w p) :
    Balanced nesting w := by
  induction hw with
  | @leaf nesting w p hleaf =>
      intro rest
      have hnone : NoParens w := Spells.noParens hleaf
      have hself : deepest nesting w = nesting := by
        simpa [deepest] using hnone.deepest_append nesting []
      have hle := le_deepest nesting rest
      rw [hnone.deepest_append, hself]
      omega
  | @group nesting u w v p hu hw hv ih =>
      intro rest
      have hself := deepest_group hu ih hv []
      rw [List.append_nil] at hself
      rw [deepest_group hu ih hv rest, hself]
      simp only [deepest]
      omega
  | @neg nesting u w p hu hw ih =>
      intro rest
      have hself : deepest nesting ('-' :: (u ++ w)) = deepest nesting w := by
        simpa using deepest_neg hu w []
      rw [deepest_neg hu, hself, ih]
  | @binary _ nesting _ op w₁ u v w₂ l r hop hl hu hv hr ihl ihr =>
      obtain ⟨rfl, rfl⟩ := Grammar.mem_operators_iff.mp hop
      intro rest
      have hself :
          deepest nesting (w₁ ++ u ++ op.symbol.toList ++ v ++ w₂) =
            max (deepest nesting w₁) (deepest nesting w₂) := by
        simpa only [List.append_nil] using deepest_binary ihl hu hv []
      rw [deepest_binary ihl hu hv, hself, ihr]
      omega
  | lift hw ih =>
      exact ih

end Phrase

end Nesting

end GraphMachine
