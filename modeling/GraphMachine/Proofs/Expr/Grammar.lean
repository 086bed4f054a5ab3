import GraphMachine.Proofs.Expr.Draft
import GraphMachine.Proofs.Text.Words

/-!
# The grammar of expressions

The texts of expressions are described by a layered grammar.  A level is given by how tightly its
operators bind:

* levels 1 to 4 have the binary operators of that level, which associate to the left;
* level 5 has the unary minus;
* level 6 has the primaries, that is leaves and parenthesised expressions.

A text of a level is also a text of every level below it.  Gaps may stand before, after and between
tokens.  Parentheses leave no trace in the tree, but leaves may depend on how many are open around
them.

The rules are the same whatever the leaves are, so the grammar has the leaves and the nodes of its
trees as parameters.  Drafts have numerals and identifiers as their leaves.
-/

namespace GraphMachine

open Text

/-- Operators are written without parentheses. -/
theorem Operator.noParens_symbol
    (op : Operator) :
    NoParens op.symbol.toList := by
  cases op with
  | arith op => cases op <;> simp [NoParens, Operator.symbol]
  | compare op => cases op <;> simp [NoParens, Operator.symbol]

theorem Operator.isWordChar_symbol
    (op : Operator) :
    ∀ c ∈ op.symbol.toList, isWordChar c = false := by
  have hall : op.symbol.toList.all (fun c => !isWordChar c) = true := by
    cases op with
    | arith op => cases op <;> decide
    | compare op => cases op <;> decide
  simpa using hall

theorem Operator.isGap_symbol
    (op : Operator) :
    ∀ c ∈ op.symbol.toList, isGap c = false := by
  have hall : op.symbol.toList.all (fun c => !isGap c) = true := by
    cases op with
    | arith op => cases op <;> decide
    | compare op => cases op <;> decide
  simpa using hall

theorem Operator.symbol_ne_nil
    (op : Operator) :
    op.symbol.toList ≠ [] := by
  cases op with
  | arith op => cases op <;> decide
  | compare op => cases op <;> decide

/-- What a grammar of expressions has to know of its trees: how leaves with so many parentheses
around them are written, and how nodes are built. -/
structure Grammar (τ : Type) where
  leaf : Nat → List Char → τ → Prop
  neg : τ → τ
  binary : Operator → τ → τ → τ

namespace Grammar

variable {τ : Type}

/-- The binary operators of each level, with the signs that stand for them. -/
def operators : Nat → List (String × Operator)
  | 1 => [("==", .compare .eq), ("!=", .compare .ne)]
  | 2 => [("<", .compare .lt), (">", .compare .gt), ("<=", .compare .le), (">=", .compare .ge)]
  | 3 => [("+", .arith .add), ("-", .arith .sub)]
  | 4 => [("*", .arith .mul), ("/", .arith .div), ("%", .arith .rem)]
  | _ => []

/-- `Derives G level nesting w t` says that the text `w`, which starts and ends with a token, is a
text of the level for the tree `t`, with `nesting` parentheses open around it. -/
inductive Derives (G : Grammar τ) : Nat → Nat → List Char → τ → Prop
  | leaf
      {nesting : Nat}
      {w : List Char}
      {t : τ}
      (hleaf : G.leaf nesting w t) :
      Derives G 6 nesting w t
  | group
      {nesting : Nat}
      {u w v : List Char}
      {t : τ}
      (hu : Gaps u)
      (hw : Derives G 1 (nesting + 1) w t)
      (hv : Gaps v) :
      Derives G 6 nesting ('(' :: (u ++ w ++ v ++ [')'])) t
  | neg
      {nesting : Nat}
      {u w : List Char}
      {t : τ}
      (hu : Gaps u)
      (hw : Derives G 5 nesting w t) :
      Derives G 5 nesting ('-' :: (u ++ w)) (G.neg t)
  | binary
      {level nesting : Nat}
      {sign : String}
      {op : Operator}
      {w₁ u v w₂ : List Char}
      {l r : τ}
      (hop : (sign, op) ∈ operators level)
      (hl : Derives G level nesting w₁ l)
      (hu : Gaps u)
      (hv : Gaps v)
      (hr : Derives G (level + 1) nesting w₂ r) :
      Derives G level nesting (w₁ ++ u ++ sign.toList ++ v ++ w₂) (G.binary op l r)
  | lift
      {level nesting : Nat}
      {w : List Char}
      {t : τ}
      (hw : Derives G (level + 1) nesting w t) :
      Derives G level nesting w t

/-- A whole text for a tree: a text of the lowest level with gaps around it. -/
def Sentence (G : Grammar τ) (text : List Char) (t : τ) : Prop :=
  ∃ u w v, Gaps u ∧ G.Derives 1 0 w t ∧ Gaps v ∧ text = u ++ w ++ v

/-- Every operator is in one level only, and it is written in one way only. -/
theorem mem_operators_iff
    {level : Nat}
    {sign : String}
    {op : Operator} :
    (sign, op) ∈ operators level ↔ level = op.level ∧ sign = op.symbol := by
  constructor
  · have hall : ∀ entry ∈ operators level, level = entry.2.level ∧ entry.1 = entry.2.symbol := by
      unfold operators
      split
      case h_5 => simp
      all_goals decide
    exact hall (sign, op)
  · rintro ⟨rfl, rfl⟩
    cases op with
    | arith op => cases op <;> decide
    | compare op => cases op <;> decide

theorem mem_operators
    (op : Operator) :
    (op.symbol, op) ∈ operators op.level :=
  mem_operators_iff.mpr ⟨rfl, rfl⟩

/-- Texts around an operator make a text of its level. -/
theorem Derives.operation
    {G : Grammar τ}
    {nesting : Nat}
    {op : Operator}
    {w₁ u v w₂ : List Char}
    {l r : τ}
    (hl : G.Derives op.level nesting w₁ l)
    (hu : Gaps u)
    (hv : Gaps v)
    (hr : G.Derives (op.level + 1) nesting w₂ r) :
    G.Derives op.level nesting (w₁ ++ u ++ op.symbol.toList ++ v ++ w₂) (G.binary op l r) := by
  exact .binary (mem_operators op) hl hu hv hr

/-- A text of a level is one of every level below. -/
theorem Derives.lower
    {G : Grammar τ}
    {high low nesting : Nat}
    {w : List Char}
    {t : τ}
    (hw : G.Derives high nesting w t)
    (hle : low ≤ high) :
    G.Derives low nesting w t := by
  induction high with
  | zero =>
      have hzero : low = 0 := by omega
      subst hzero
      exact hw
  | succ high ih =>
      by_cases heq : low = high + 1
      · subst heq
        exact hw
      · exact ih hw.lift (by omega)

theorem Derives.sentence
    {G : Grammar τ}
    {w : List Char}
    {t : τ}
    (hw : G.Derives 1 0 w t) :
    G.Sentence w t :=
  ⟨[], w, [], gaps_nil, hw, gaps_nil, by simp⟩

end Grammar

namespace Draft

/-- How the leaves of drafts are written. -/
inductive Spells : Nat → List Char → Draft → Prop
  | integer
      {nesting : Nat}
      {w : List Char}
      (hw : IsNumeral w) :
      Spells nesting w (.integer w nesting)
  | ident
      {nesting : Nat}
      {w : List Char}
      (hw : IsIdentifier w) :
      Spells nesting w (.ident w nesting)

/-- The grammar of texts without references. -/
def grammar : Grammar Draft where
  leaf := Spells
  neg := .neg
  binary := .binary

/-- Derived texts have as many opening as closing parentheses. -/
theorem count_of_derives
    {level nesting : Nat}
    {w : List Char}
    {t : Draft}
    (hw : grammar.Derives level nesting w t) :
    w.count '(' = w.count ')' := by
  induction hw with
  | @leaf nesting w t hleaf =>
      have hnone : NoParens w := by
        cases hleaf with
        | integer hw => exact noParens_of_isWordChar hw.isWordChar
        | ident hw => exact noParens_of_isWordChar hw.isWordChar
      rw [hnone.count_eq.1, hnone.count_eq.2]
  | group hu hw hv ih =>
      simp [hu.noParens.count_eq, hv.noParens.count_eq, ih]
  | neg hu hw ih =>
      simp [hu.noParens.count_eq, ih]
  | @binary _ _ _ op _ u v _ _ _ hop hl hu hv hr ihl ihr =>
      obtain ⟨rfl, rfl⟩ := Grammar.mem_operators_iff.mp hop
      simp [hu.noParens.count_eq, hv.noParens.count_eq, op.noParens_symbol.count_eq, ihl, ihr]
  | lift hw ih =>
      exact ih

def literals : Draft → List (List Char)
  | integer digits _ => [digits]
  | ident _ _ => []
  | neg e => e.literals
  | binary _ l r => l.literals ++ r.literals

/-- How many parentheses are around each leaf, from left to right. -/
def nestings : Draft → List Nat
  | integer _ nesting => [nesting]
  | ident _ nesting => [nesting]
  | neg e => e.nestings
  | binary _ l r => l.nestings ++ r.nestings

/-- The tree of a draft, whatever its nesting and the size of its literals. -/
def tree : Draft → Expr
  | integer digits _ => .integer (Int64.ofNat (Decimal.value digits))
  | ident name _ => .ident (String.ofList name)
  | neg e => .neg e.tree
  | binary op l r => .binary op l.tree r.tree

end Draft
end GraphMachine
