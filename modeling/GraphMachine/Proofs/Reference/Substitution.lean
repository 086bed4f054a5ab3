import GraphMachine.Evaluation
import GraphMachine.Proofs.Expr.Limits
import GraphMachine.Proofs.Reference.Layout
import GraphMachine.Proofs.Reference.Phrase

/-!
# Substitution keeps the meaning

Evaluation replaces every reference of a text by a printed value and reads the result again.  A
printed value is a primary wherever it stands: a numeral, or a negated numeral or a difference in
parentheses.  So the substituted text derives the tree of the phrase with a small tree in the place
of each reference, and its value is the value of the phrase.

The small trees are at most three nodes high and stand in at most one more pair of parentheses,
which bounds what substitution adds to the height and to the nesting.
-/

namespace GraphMachine

open Text

namespace Template

namespace Layout

def prepend (t : Plain) : Layout → Layout
  | last t' => last ⟨t.chars ++ t'.chars, by simp [t.brace_notMem, t'.brace_notMem]⟩
  | more t' r rest => more ⟨t.chars ++ t'.chars, by simp [t.brace_notMem, t'.brace_notMem]⟩ r rest

/-- Two layouts one after the other. -/
def append : Layout → Layout → Layout
  | last t, l => l.prepend t
  | more t r rest, l => more t r (rest.append l)

theorem text_prepend
    (t : Plain)
    (l : Layout) :
    (l.prepend t).text = t.chars ++ l.text := by
  cases l with
  | last t' => rfl
  | more t' r rest => simp [prepend, text_more]

theorem pieces_prepend
    (t : Plain)
    (l : Layout) :
    (l.prepend t).pieces = t.chars.map .char ++ l.pieces := by
  cases l with
  | last t' => simp [prepend, pieces]
  | more t' r rest => simp [prepend, pieces]

theorem text_append
    (l l' : Layout) :
    (l.append l').text = l.text ++ l'.text := by
  induction l with
  | last t => exact text_prepend t l'
  | more t r rest ih => simp [append, text_more, ih]

theorem pieces_append
    (l l' : Layout) :
    (l.append l').pieces = l.pieces ++ l'.pieces := by
  induction l with
  | last t => exact pieces_prepend t l'
  | more t r rest ih => simp [append, pieces, ih]

end Layout

/-- Filling a template puts `w'` in the place of `w`. -/
def Replaces (form : Int64 → List Char) (s : Scope) (w w' : List Char) : Prop :=
  ∃ l : Layout, l.text = w ∧ fill form s l.pieces = .ok w'

variable {form : Int64 → List Char} {s : Scope}

theorem Replaces.append
    {u u' v v' : List Char}
    (hu : Replaces form s u u')
    (hv : Replaces form s v v') :
    Replaces form s (u ++ v) (u' ++ v') := by
  obtain ⟨l, rfl, hfill⟩ := hu
  obtain ⟨l', rfl, hfill'⟩ := hv
  refine ⟨l.append l', l.text_append l', ?_⟩
  rw [l.pieces_append, fill_append, hfill, hfill']
  rfl

/-- A text without an open brace is kept. -/
theorem replaces_self
    {w : List Char}
    (hw : '\x7b' ∉ w) :
    Replaces form s w w := by
  refine ⟨.last ⟨w, hw⟩, rfl, ?_⟩
  simpa [Layout.pieces, fill, Except.map] using fill_plain form s w []

/-- A reference in braces is replaced by the value of its cell. -/
theorem replaces_reference
    {a w b : List Char}
    {r : Reference}
    {v : Int64}
    (ha : Blanks a)
    (hw : Reference.Spells w r)
    (hb : Blanks b)
    (hread : r.read s = .ok v) :
    Replaces form s ('\x7b' :: (a ++ w ++ b ++ ['\x7d'])) (form v) := by
  obtain ⟨slot, hslot, hreference⟩ := Slot.spells_reference_iff.mp hw
  have hempty : '\x7b' ∉ [] := List.not_mem_nil
  refine ⟨.more ⟨[], hempty⟩ ⟨_, slot, .braces ha hslot hb⟩ (.last ⟨[], hempty⟩),
    by simp [Layout.text, Layout.replaced], ?_⟩
  simp [Layout.pieces, fill, Slot.read, hreference, hread]

/-- A text that is replaced as a whole gives the result. -/
theorem substitute_of_replaces
    {text : String}
    {cs : List Char}
    (htext : Replaces form s text.toList cs) :
    substitute form s text = .ok (String.ofList cs) := by
  obtain ⟨l, htext, hfill⟩ := htext
  rw [substitute_layout htext, hfill]
  rfl

end Template

namespace Draft

/-- The draft is within the limits, its tree is at most so high, and it has the given value. -/
structure Denotes (s : Scope) (maxDepth height : Nat) (v : Except EvalError Value)
    (t : Draft) : Prop where
  within : t.Within maxDepth
  height_le : t.tree.height ≤ height
  value_eq : t.tree.value s = v

variable {s : Scope} {maxDepth : Nat}

theorem denotes_integer
    {w : List Char}
    {nesting height : Nat}
    {v : Int64}
    (hv : v.toInt = Decimal.value w)
    (hnesting : 2 * nesting + 2 ≤ maxDepth)
    (hheight : 1 ≤ height) :
    Denotes s maxDepth height (.ok (.int v)) (.integer w nesting) where
  within := by
    rw [within_integer, ← hv]
    exact ⟨v.toInt_le, hnesting⟩
  height_le := hheight
  value_eq := by
    simp [tree, Expr.value, Decimal.ofNat_eq_of_toInt hv]

theorem denotes_ident
    {w : List Char}
    {nesting height : Nat}
    (hnesting : 2 * nesting + 2 ≤ maxDepth)
    (hheight : 1 ≤ height) :
    Denotes s maxDepth height ((s.named (String.ofList w)).map .int) (.ident w nesting) where
  within := (within_ident maxDepth w nesting).mpr hnesting
  height_le := hheight
  value_eq := rfl

theorem Denotes.neg
    {t : Draft}
    {height : Nat}
    {v : Except EvalError Value}
    (ht : Denotes s maxDepth height v t) :
    Denotes s maxDepth (height + 1) (v.bind fun a => .ok (.int (-a.toWord))) (.neg t) where
  within := (within_neg maxDepth t).mpr ht.within
  height_le := Nat.succ_le_succ ht.height_le
  value_eq := by
    rw [← ht.value_eq]
    rfl

theorem Denotes.binary
    {l r : Draft}
    {height height' : Nat}
    {v v' : Except EvalError Value}
    (op : Operator)
    (hl : Denotes s maxDepth height v l)
    (hr : Denotes s maxDepth height' v' r) :
    Denotes s maxDepth (max height height' + 1) (v.bind fun a => v'.bind fun b => op.apply a b)
      (.binary op l r) where
  within := (within_binary maxDepth op l r).mpr ⟨hl.within, hr.within⟩
  height_le := by
    have hleft := hl.height_le
    have hright := hr.height_le
    simp only [tree, Expr.height]
    omega
  value_eq := by
    rw [← hl.value_eq, ← hr.value_eq]
    rfl

theorem Denotes.mono
    {t : Draft}
    {height height' : Nat}
    {v : Except EvalError Value}
    (ht : Denotes s maxDepth height v t)
    (hle : height ≤ height') :
    Denotes s maxDepth height' v t where
  within := ht.within
  height_le := Nat.le_trans ht.height_le hle
  value_eq := ht.value_eq

end Draft

namespace Template

open Draft (Denotes)

theorem derives_toDigits
    (n nesting : Nat) :
    Draft.grammar.Derives 6 nesting (Nat.toDigits 10 n)
      (.integer (Nat.toDigits 10 n) nesting) := by
  exact .leaf (.integer (Decimal.isNumeral_toDigits n))

theorem denotes_toDigits
    {s : Scope}
    {n nesting maxDepth : Nat}
    (hn : n < 2 ^ 63)
    (hdepth : 2 * nesting + 2 ≤ maxDepth) :
    Denotes s maxDepth 1 (.ok (.int (Int64.ofNat n))) (.integer (Nat.toDigits 10 n) nesting) := by
  refine Draft.denotes_integer ?_ hdepth (Nat.le_refl 1)
  rw [Decimal.value_toDigits, Int64.toInt_ofNat_of_lt hn]

/-- A word that is not negative is written as a numeral. -/
theorem exists_operand_of_nonneg
    (s : Scope)
    {v : Int64}
    {nesting maxDepth : Nat}
    (hv : 0 ≤ v.toInt)
    (hdepth : 2 * nesting + 4 ≤ maxDepth) :
    ∃ t,
      Draft.grammar.Derives 6 nesting (operand v) t ∧
      Denotes s maxDepth 3 (.ok (.int v)) t := by
  obtain ⟨n, hn⟩ := Int.eq_ofNat_of_zero_le hv
  have hmin : v ≠ Int64.minValue := by
    rintro rfl
    exact absurd hv (by decide)
  have hneg : ¬ v < 0 := by
    rw [Decimal.lt_zero_iff]
    omega
  have htext : operand v = Nat.toDigits 10 n := by
    simp only [operand, hmin, hneg, if_false, plain]
    exact Decimal.toList_ofWord hn
  rw [htext]
  refine ⟨_, derives_toDigits n nesting, ?_⟩
  exact Draft.denotes_integer (by simpa using hn) (by omega) (by omega)

/-- A negative word, apart from the smallest one, is written as a negated numeral. -/
theorem exists_operand_of_neg
    (s : Scope)
    {v : Int64}
    {nesting maxDepth : Nat}
    (hv : v.toInt < 0)
    (hmin : v ≠ Int64.minValue)
    (hdepth : 2 * nesting + 4 ≤ maxDepth) :
    ∃ t,
      Draft.grammar.Derives 6 nesting (operand v) t ∧
      Denotes s maxDepth 3 (.ok (.int v)) t := by
  obtain ⟨n, hn⟩ : ∃ n : Nat, v.toInt = -n := ⟨v.toInt.natAbs, by omega⟩
  have hbound : n < 2 ^ 63 := by
    have hle := v.le_toInt
    have hne : v.toInt ≠ Int64.minValue.toInt := fun h => hmin (Int64.toInt_inj.mp h)
    have hvalue : Int64.minValue.toInt = -2 ^ 63 := by decide
    rw [hvalue] at hne
    omega
  have hopposite : -Int64.ofNat n = v := by
    rw [Int64.neg_ofNat, ← hn, Int64.ofInt_toInt]
  have htext :
      operand v = '(' :: ([] ++ ('-' :: ([] ++ Nat.toDigits 10 n)) ++ [] ++ [')']) := by
    have hneg : v < 0 := (Decimal.lt_zero_iff v).mpr hv
    simp only [operand, hmin, hneg, if_false, if_true, plain,
      Decimal.toList_ofWord_neg hn (by omega)]
    simp
  have hderives :
      Draft.grammar.Derives 5 (nesting + 1) ('-' :: ([] ++ Nat.toDigits 10 n))
        (.neg (.integer (Nat.toDigits 10 n) (nesting + 1))) :=
    .neg gaps_nil (derives_toDigits n (nesting + 1)).lift
  have hdenotes :
      Denotes s maxDepth 2 (.ok (.int (-Int64.ofNat n)))
        (.neg (.integer (Nat.toDigits 10 n) (nesting + 1))) :=
    (denotes_toDigits hbound (by omega)).neg
  rw [htext]
  rw [hopposite] at hdenotes
  exact ⟨_, .group gaps_nil (hderives.lower (by omega)) gaps_nil, hdenotes.mono (by omega)⟩

/-- The smallest word has no numeral and is written as a difference. -/
theorem exists_operand_minValue
    (s : Scope)
    {nesting maxDepth : Nat}
    (hdepth : 2 * nesting + 4 ≤ maxDepth) :
    ∃ t,
      Draft.grammar.Derives 6 nesting (operand Int64.minValue) t ∧
      Denotes s maxDepth 3 (.ok (.int Int64.minValue)) t := by
  -- The text is a group around a negated numeral, a minus sign and a one.
  have hmax : Int64.maxValue.toInt = (9223372036854775807 : Nat) := by decide
  have hone : IsNumeral ['1'] := by decide
  have htext :
      operand Int64.minValue =
        '(' :: ([] ++ (('-' :: ([] ++ Nat.toDigits 10 9223372036854775807)) ++ [' '] ++
          (Operator.arith .sub).symbol.toList ++ [' '] ++ ['1']) ++ [] ++ [')']) := by
    simp only [operand, if_true, plain, Decimal.toList_ofWord hmax]
    simp [Operator.symbol]
  have hleft :
      Draft.grammar.Derives 5 (nesting + 1)
        ('-' :: ([] ++ Nat.toDigits 10 9223372036854775807))
        (.neg (.integer (Nat.toDigits 10 9223372036854775807) (nesting + 1))) :=
    .neg gaps_nil (derives_toDigits 9223372036854775807 (nesting + 1)).lift
  have hright : Draft.grammar.Derives 6 (nesting + 1) ['1'] (.integer ['1'] (nesting + 1)) :=
    .leaf (.integer hone)
  have hgap : Gaps [' '] := by decide
  have hdifference :
      Draft.grammar.Derives (Operator.arith .sub).level (nesting + 1) _
        (.binary (.arith .sub) _ _) :=
    .operation (hleft.lower (by decide)) hgap hgap (hright.lower (by decide))
  have hdenotes :
      Denotes s maxDepth 1 (.ok (.int (Int64.ofNat 9223372036854775807)))
        (.integer (Nat.toDigits 10 9223372036854775807) (nesting + 1)) :=
    denotes_toDigits (by decide) (by omega)
  have hdenotes' :
      Denotes s maxDepth 1 (.ok (.int 1)) (.integer ['1'] (nesting + 1)) :=
    Draft.denotes_integer (by decide) (by omega) (Nat.le_refl 1)
  have hvalue : -Int64.ofNat 9223372036854775807 - 1 = Int64.minValue := by decide
  rw [htext]
  refine ⟨_, .group gaps_nil (hdifference.lower (by decide)) gaps_nil, ?_⟩
  have hboth := hdenotes.neg.binary (.arith .sub) hdenotes'
  rw [← hvalue]
  exact hboth

/-- The operand of a word is a primary that denotes the word.  It has at most three nodes on a way
and adds at most one pair of parentheses. -/
theorem exists_operand
    (s : Scope)
    (v : Int64)
    {nesting maxDepth : Nat}
    (hdepth : 2 * nesting + 4 ≤ maxDepth) :
    ∃ t,
      Draft.grammar.Derives 6 nesting (operand v) t ∧
      Denotes s maxDepth 3 (.ok (.int v)) t := by
  by_cases hmin : v = Int64.minValue
  · subst hmin
    exact exists_operand_minValue s hdepth
  · by_cases hneg : v.toInt < 0
    · exact exists_operand_of_neg s hneg hmin hdepth
    · exact exists_operand_of_nonneg s (by omega) hdepth

theorem evaluate_of_resolve
    {s : Scope}
    {text resolved : String}
    (maxDepth : Nat)
    (h : resolve s text = .ok resolved) :
    evaluate s maxDepth text = (Expr.parse resolved maxDepth).bind fun e => e.eval s maxDepth := by
  rw [evaluate, h]
  rfl

theorem evaluate_of_resolve_error
    {s : Scope}
    {text : String}
    {err : EvalError}
    (maxDepth : Nat)
    (h : resolve s text = .error err) :
    evaluate s maxDepth text = .error err := by
  rw [evaluate, h]
  rfl

/-- A text evaluates to what the draft of its substituted text denotes. -/
theorem evaluate_of_denotes
    {s : Scope}
    {maxDepth height : Nat}
    {text : String}
    {w : List Char}
    {t : Draft}
    {v : Except EvalError Value}
    (hresolve : resolve s text = .ok (String.ofList w))
    (hsentence : Draft.grammar.Sentence w t)
    (hdenotes : Denotes s maxDepth height v t)
    (hheight : height ≤ maxDepth) :
    evaluate s maxDepth text = v := by
  rw [← String.toList_ofList (l := w)] at hsentence
  rw [evaluate_of_resolve maxDepth hresolve, Expr.parse_eq_toExpr maxDepth hsentence,
    Draft.toExpr_of_within hdenotes.within]
  change t.tree.eval s maxDepth = v
  rw [Expr.eval_of_height_le (hdenotes.height_le.trans hheight), hdenotes.value_eq]

/-- A reference alone evaluates to the value of its cell. -/
theorem evaluate_written
    (s : Scope)
    (r : Written)
    {maxDepth : Nat}
    (hdepth : 4 ≤ maxDepth) :
    evaluate s maxDepth (String.ofList r.chars) = (r.slot.read s).map .int := by
  have hresolve := substitute_written_append operand s r (t := []) List.not_mem_nil
  simp only [List.append_nil] at hresolve
  cases hread : r.slot.read s with
  | error err =>
      simp only [hread, Except.map] at hresolve
      exact evaluate_of_resolve_error maxDepth hresolve
  | ok v =>
      simp only [hread, Except.map] at hresolve
      obtain ⟨t, hderives, hdenotes⟩ := exists_operand s v (show 2 * 0 + 4 ≤ maxDepth from hdepth)
      exact evaluate_of_denotes hresolve (hderives.lower (by decide)).sentence hdenotes (by omega)

end Template

namespace Phrase

open Template
open Draft (Denotes)

variable {s : Scope} {maxDepth : Nat}

theorem replaces_gaps
    {u : List Char}
    (hu : Gaps u) :
    Replaces operand s u u := by
  apply replaces_self
  intro hmem
  exact absurd (hu _ hmem) (by decide)

theorem replaces_words
    {w : List Char}
    (hw : ∀ c ∈ w, isWordChar c = true) :
    Replaces operand s w w := by
  apply replaces_self
  intro hmem
  exact absurd (hw _ hmem) (by decide)

theorem replaces_symbol
    (op : Operator) :
    Replaces operand s op.symbol.toList op.symbol.toList := by
  apply replaces_self
  cases op with
  | arith op => cases op <;> simp [Operator.symbol]
  | compare op => cases op <;> simp [Operator.symbol]

/-- Substitution turns the text of a leaf into a primary with the value of the leaf. -/
theorem exists_draft_of_leaf
    {nesting : Nat}
    {w : List Char}
    {p : Phrase}
    (hw : Spells nesting w p)
    (hread : ∀ r ∈ p.references, ∃ v, r.read s = .ok v)
    (hdepth : 2 * nesting + 4 ≤ maxDepth) :
    ∃ w' t,
      Replaces operand s w w' ∧
      Draft.grammar.Derives 6 nesting w' t ∧
      Denotes s maxDepth (p.height + 2) (p.value s) t := by
  cases hw with
  | @integer _ v hw hv =>
      refine ⟨w, .integer w nesting, replaces_words hw.isWordChar, .leaf (.integer hw), ?_⟩
      exact Draft.denotes_integer hv (by omega) (by simp [height])
  | ident hw =>
      refine ⟨w, .ident w nesting, replaces_words hw.isWordChar, .leaf (.ident hw), ?_⟩
      exact Draft.denotes_ident (by omega) (by simp [height])
  | @reference a w b r ha hw hb =>
      obtain ⟨v, hv⟩ := hread r (by simp [references])
      obtain ⟨t, hderives, hdenotes⟩ := exists_operand s v hdepth
      refine ⟨operand v, t, replaces_reference ha hw hb hv, hderives, ?_⟩
      have hvalue : (Phrase.reference r).value s = .ok (.int v) := by
        simp only [value, hv]
        rfl
      rw [hvalue]
      exact hdenotes

/-- Substitution turns a text of the phrase into a text of a draft with the same value. -/
theorem exists_draft_of_derives
    {level nesting : Nat}
    {w : List Char}
    {p : Phrase}
    (hw : grammar.Derives level nesting w p)
    (hread : ∀ r ∈ p.references, ∃ v, r.read s = .ok v)
    (hdepth : 2 * deepest nesting w + 4 ≤ maxDepth) :
    ∃ w' t,
      Replaces operand s w w' ∧
      Draft.grammar.Derives level nesting w' t ∧
      Denotes s maxDepth (p.height + 2) (p.value s) t := by
  induction hw with
  | @leaf nesting w p hleaf =>
      have hle := le_deepest nesting w
      exact exists_draft_of_leaf hleaf hread (by omega)
  | @group nesting u w v p hu hw hv ih =>
      have hinner : deepest (nesting + 1) w ≤ deepest nesting ('(' :: (u ++ w ++ v ++ [')'])) := by
        have hself := deepest_group hu (balanced_of_derives hw) hv []
        rw [List.append_nil] at hself
        omega
      obtain ⟨w', t, hreplaces, hderives, hdenotes⟩ := ih hread (by omega)
      refine ⟨'(' :: (u ++ w' ++ v ++ [')']), t, ?_, .group hu hderives hv, hdenotes⟩
      have hopen : Replaces operand s ['('] ['('] := replaces_self (by decide)
      have hclose : Replaces operand s [')'] [')'] := replaces_self (by decide)
      exact hopen.append ((((replaces_gaps hu).append hreplaces).append
        (replaces_gaps hv)).append hclose)
  | @neg nesting u w p hu hw ih =>
      have hinner : deepest nesting ('-' :: (u ++ w)) = deepest nesting w := by
        simpa using deepest_neg hu w []
      rw [hinner] at hdepth
      obtain ⟨w', t, hreplaces, hderives, hdenotes⟩ := ih hread hdepth
      have hsign : Replaces operand s ['-'] ['-'] := replaces_self (by decide)
      refine ⟨'-' :: (u ++ w'), .neg t, ?_, .neg hu hderives, hdenotes.neg⟩
      exact hsign.append ((replaces_gaps hu).append hreplaces)
  | @binary _ nesting _ op w₁ u v w₂ l r hop hl hu hv hr ihl ihr =>
      obtain ⟨rfl, rfl⟩ := Grammar.mem_operators_iff.mp hop
      have hinner :
          deepest nesting (w₁ ++ u ++ op.symbol.toList ++ v ++ w₂) =
            max (deepest nesting w₁) (deepest nesting w₂) := by
        simpa only [List.append_nil] using deepest_binary (balanced_of_derives hl) hu hv []
      rw [hinner] at hdepth
      have hreads : ∀ x ∈ l.references ++ r.references, ∃ v, x.read s = .ok v := hread
      obtain ⟨w₁', t₁, hreplaces₁, hderives₁, hdenotes₁⟩ :=
        ihl (fun x hx => hreads x (List.mem_append_left _ hx)) (by omega)
      obtain ⟨w₂', t₂, hreplaces₂, hderives₂, hdenotes₂⟩ :=
        ihr (fun x hx => hreads x (List.mem_append_right _ hx)) (by omega)
      refine ⟨w₁' ++ u ++ op.symbol.toList ++ v ++ w₂', .binary op t₁ t₂, ?_,
        .operation hderives₁ hu hv hderives₂, ?_⟩
      · exact (((hreplaces₁.append (replaces_gaps hu)).append (replaces_symbol op)).append
          (replaces_gaps hv)).append hreplaces₂
      · have hboth := hdenotes₁.binary op hdenotes₂
        have hheight : (grammar.binary op l r).height = max l.height r.height + 1 := rfl
        exact hboth.mono (by omega)
  | lift hw ih =>
      obtain ⟨w', t, hreplaces, hderives, hdenotes⟩ := ih hread hdepth
      exact ⟨w', t, hreplaces, hderives.lift, hdenotes⟩

/-- A text of a phrase whose references can be read evaluates to the value of the phrase, if the
limit leaves room for the nesting of the text and the height of the phrase. -/
theorem evaluate_eq_value
    {s : Scope}
    {maxDepth : Nat}
    {text : String}
    {p : Phrase}
    (htext : grammar.Sentence text.toList p)
    (hread : ∀ r ∈ p.references, ∃ v, r.read s = .ok v)
    (hdepth : max (2 * deepest 0 text.toList + 4) (p.height + 2) ≤ maxDepth) :
    evaluate s maxDepth text = p.value s := by
  obtain ⟨u, w, v, hu, hw, hv, heq⟩ := htext
  have hinner : deepest 0 w ≤ deepest 0 text.toList := by
    rw [heq, List.append_assoc, hu.noParens.deepest_append, balanced_of_derives hw]
    exact Nat.le_max_left _ _
  obtain ⟨w', t, hreplaces, hderives, hdenotes⟩ :=
    exists_draft_of_derives hw hread (show 2 * deepest 0 w + 4 ≤ maxDepth by omega)
  have hresolve : resolve s text = .ok (String.ofList (u ++ w' ++ v)) := by
    apply substitute_of_replaces
    rw [heq]
    exact ((replaces_gaps hu).append hreplaces).append (replaces_gaps hv)
  exact evaluate_of_denotes hresolve ⟨u, w', v, hu, hderives, hv, rfl⟩ hdenotes (by omega)

/-- The smallest word after a minus, at the least depth that is allowed. -/
theorem evaluate_two_sub_minValue :
    evaluate ⟨Memory.empty.set 1 Int64.minValue, .tape⟩ 4 "2-\x7b +1 \x7d" =
      .ok (.int (Int64.minValue + 2)) := by
  have hleft : grammar.Derives 6 0 ['2'] (.integer 2) :=
    .leaf (.integer (by decide) (by decide))
  have hright :
      grammar.Derives 6 0 ('\x7b' :: ([' '] ++ ['+', '1'] ++ [' '] ++ ['\x7d']))
        (.reference (.relative 1)) :=
    .leaf (.reference (by decide) (.plus (by decide) (by decide)) (by decide))
  have hderives :
      grammar.Derives (Operator.arith .sub).level 0
        (['2'] ++ [] ++ (Operator.arith .sub).symbol.toList ++ [] ++
          '\x7b' :: ([' '] ++ ['+', '1'] ++ [' '] ++ ['\x7d']))
        (grammar.binary (.arith .sub) (.integer 2) (.reference (.relative 1))) :=
    .operation (hleft.lower (by decide)) gaps_nil gaps_nil (hright.lower (by decide))
  have htext :
      grammar.Sentence "2-\x7b +1 \x7d".toList
        (.binary (.arith .sub) (.integer 2) (.reference (.relative 1))) :=
    ⟨[], _, [], gaps_nil, hderives.lower (by decide), gaps_nil, by decide⟩
  have hcell :
      (Reference.relative 1).read ⟨Memory.empty.set 1 Int64.minValue, .tape⟩ =
        .ok Int64.minValue := by
    decide +kernel
  rw [evaluate_eq_value htext]
  · simp only [value, hcell]
    decide
  · intro r hr
    have heq : r = .relative 1 := by
      simpa [references] using hr
    exact ⟨_, heq ▸ hcell⟩
  · decide

end Phrase
end GraphMachine
