import GraphMachine.Proofs.Expr.Limits

/-!
# The leftmost faulty leaf

A text that is read as an expression can still break a limit: a leaf can stand in too many
parentheses, and a literal can be too large.  The errors are found while the tree is built, in an
order that depends on how tightly operators bind.  Nevertheless it is always the leftmost such leaf
of the text that decides the error.

Leaves are found in the text itself, without tokens or trees: they are the numerals and identifiers
with no word character beside them, and the parentheses before them say how deeply they are nested.
`FirstFault` says what the leftmost fault of a text is.  Where two texts side by side share no word,
the first fault of both together is that of the first text, or else that of the second.
-/

namespace GraphMachine

open Text

namespace Text

/-- A numeral or an identifier in a text, with no word character on either side. -/
structure LeafAt (text before word after : List Char) : Prop where
  text_eq : text = before ++ (word ++ after)
  isLeaf : IsNumeral word ∨ IsIdentifier word
  start : ∀ c ∈ before.getLast?, isWordChar c = false
  stop : Stops after

/-- How many parentheses are open after a text, if so many are open before it. -/
def openAfter (opened : Nat) (text : List Char) : Nat :=
  opened + text.count '(' - text.count ')'

/-- What is wrong with a leaf that has so many parentheses open around it: it is nested too deeply,
or else it is a numeral above the largest word. -/
def leafFault? (maxDepth opened : Nat) (word : List Char) : Option EvalError :=
  if maxDepth < 2 * opened + 2 then
    some (.depthExceeded maxDepth)
  else if IsNumeral word ∧ Int64.maxValue.toInt < Decimal.value word then
    some (.invalidNumber (String.ofList word))
  else
    none

/-- A leaf of the text has this fault. -/
def FaultAt (maxDepth opened : Nat) (text before : List Char) (err : EvalError) : Prop :=
  ∃ word after,
    LeafAt text before word after ∧ leafFault? maxDepth (openAfter opened before) word = some err

/-- The first fault of a text, if it has one. -/
inductive FirstFault (maxDepth opened : Nat) (text : List Char) : Option EvalError → Prop
  | absent
      (h : ∀ before err, ¬ FaultAt maxDepth opened text before err) :
      FirstFault maxDepth opened text none
  | present
      {before : List Char}
      {err : EvalError}
      (hfault : FaultAt maxDepth opened text before err)
      (hfirst : ∀ before' err',
        FaultAt maxDepth opened text before' err' → before.length ≤ before'.length) :
      FirstFault maxDepth opened text (some err)

section Leaves

variable {text before word after : List Char}

theorem LeafAt.ne_nil
    (h : LeafAt text before word after) :
    word ≠ [] := by
  rcases h.isLeaf with hword | hword
  · exact hword.1
  · exact hword.ne_nil

theorem LeafAt.isWordChar
    (h : LeafAt text before word after) :
    ∀ c ∈ word, Text.isWordChar c = true := by
  rcases h.isLeaf with hword | hword
  · exact hword.isWordChar
  · exact hword.isWordChar

/-- At one place of a text there is at most one leaf. -/
theorem LeafAt.word_eq
    {word' after' : List Char}
    (h : LeafAt text before word after)
    (h' : LeafAt text before word' after') :
    word = word' := by
  have heq : word ++ after = word' ++ after' :=
    List.append_cancel_left (h.text_eq.symm.trans h'.text_eq)
  exact (append_inj_of_head h.isWordChar h.stop h'.isWordChar h'.stop heq).1

/-- A text without word characters has no leaf. -/
theorem LeafAt.exists_isWordChar
    (h : LeafAt text before word after) :
    ∃ c ∈ text, Text.isWordChar c = true := by
  obtain ⟨c, hc⟩ := List.exists_mem_of_ne_nil word h.ne_nil
  refine ⟨c, ?_, h.isWordChar c hc⟩
  rw [h.text_eq]
  simp [hc]

end Leaves

section SideBySide

variable {a b before word after : List Char}

/-- No word goes on from the one text into the other. -/
def Severed (a b : List Char) : Prop :=
  ∀ c ∈ a.getLast?, ∀ d ∈ b.head?, isWordChar c = true → isWordChar d = false

theorem Stops.severed
    (hb : Stops b)
    (a : List Char) :
    Severed a b :=
  fun _ _ d hd _ => hb d hd

theorem severed_of_getLast
    (ha : ∀ c ∈ a.getLast?, isWordChar c = false)
    (b : List Char) :
    Severed a b := by
  intro c hc d _ hword
  rw [ha c hc] at hword
  cases hword

theorem LeafAt.append_right
    (h : LeafAt a before word after)
    (hab : Severed a b) :
    LeafAt (a ++ b) before word (after ++ b) where
  text_eq := by rw [h.text_eq]; simp
  isLeaf := h.isLeaf
  start := h.start
  stop := by
    cases after with
    | cons c after => exact stops_cons (h.stop c rfl)
    | nil =>
        -- The leaf ends the first text, so the second one does not start with a word character.
        have hne := h.ne_nil
        have hlast : a.getLast? = some (word.getLast hne) := by
          rw [h.text_eq, List.append_nil, List.getLast?_append_of_ne_nil _ hne]
          exact List.getLast?_eq_some_getLast hne
        intro d hd
        exact hab _ hlast d hd (h.isWordChar _ (List.getLast_mem hne))

theorem LeafAt.append_left
    (h : LeafAt b before word after)
    (hab : Severed a b) :
    LeafAt (a ++ b) (a ++ before) word after where
  text_eq := by rw [h.text_eq]; simp
  isLeaf := h.isLeaf
  stop := h.stop
  start := by
    cases before with
    | cons c before =>
        rw [List.getLast?_append_of_ne_nil _ (List.cons_ne_nil c before)]
        exact h.start
    | nil =>
        intro c hc
        rw [List.append_nil] at hc
        cases hword : Text.isWordChar c with
        | false => rfl
        | true =>
            obtain ⟨d, ds, hne⟩ := List.exists_cons_of_ne_nil h.ne_nil
            have hd := h.isWordChar d (by simp [hne])
            have hhead : d ∈ b.head? := by simp [h.text_eq, hne]
            rw [hab c hc d hhead hword] at hd
            cases hd

/-- A leaf of two texts side by side is a leaf of one of them. -/
theorem LeafAt.of_append
    (h : LeafAt (a ++ b) before word after)
    (hab : Severed a b) :
    (∃ v, LeafAt a before word v) ∨ ∃ u, before = a ++ u ∧ LeafAt b u word after := by
  rcases List.append_eq_append_iff.mp h.text_eq with ⟨u, rfl, hb⟩ | ⟨u, ha, hrest⟩
  · refine .inr ⟨u, rfl, hb, h.isLeaf, ?_, h.stop⟩
    intro c hc
    apply h.start
    rw [List.getLast?_append, Option.mem_def.mp hc]
    rfl
  · rcases List.append_eq_append_iff.mp hrest with ⟨v, hu, hafter⟩ | ⟨v, hword, hb⟩
    · refine .inl ⟨v, by rw [ha, hu], h.isLeaf, h.start, ?_⟩
      intro c hc
      apply h.stop
      rw [hafter, List.head?_append, Option.mem_def.mp hc]
      rfl
    · cases v with
      | nil =>
          rw [List.append_nil] at hword
          exact .inl ⟨[], by rw [ha, hword, List.append_nil], h.isLeaf, h.start, stops_nil⟩
      | cons d v =>
          by_cases hu : u = []
          · subst hu
            rw [List.append_nil] at ha
            rw [List.nil_append] at hword
            refine .inr ⟨[], by rw [ha, List.append_nil], ?_, h.isLeaf, by simp, h.stop⟩
            rw [hb, hword]
            rfl
          · -- The word would go on from the first text into the second one.
            have hlast : u.getLast hu ∈ a.getLast? := by
              rw [ha, List.getLast?_append_of_ne_nil _ hu]
              exact List.getLast?_eq_some_getLast hu
            have hc := h.isWordChar (u.getLast hu) (by simp [hword])
            have hd := h.isWordChar d (by simp [hword])
            rw [hab _ hlast d (by simp [hb]) hc] at hd
            cases hd

end SideBySide

section Faults

variable {maxDepth opened : Nat}
variable {a b text : List Char}

theorem openAfter_append
    (h : a.count ')' ≤ opened + a.count '(')
    (b : List Char) :
    openAfter opened (a ++ b) = openAfter (openAfter opened a) b := by
  simp only [openAfter, List.count_append]
  omega

theorem faultAt_append_iff
    (hab : Severed a b)
    (hclosed : a.count ')' ≤ opened + a.count '(')
    (before : List Char)
    (err : EvalError) :
    FaultAt maxDepth opened (a ++ b) before err ↔
      FaultAt maxDepth opened a before err ∨
        ∃ u, before = a ++ u ∧ FaultAt maxDepth (openAfter opened a) b u err := by
  constructor
  · rintro ⟨word, after, hleaf, hfault⟩
    rcases hleaf.of_append hab with ⟨v, hfirst⟩ | ⟨u, rfl, hsecond⟩
    · exact .inl ⟨word, v, hfirst, hfault⟩
    · rw [openAfter_append hclosed] at hfault
      exact .inr ⟨u, rfl, word, after, hsecond, hfault⟩
  · rintro (⟨word, after, hleaf, hfault⟩ | ⟨u, rfl, word, after, hleaf, hfault⟩)
    · exact ⟨word, after ++ b, hleaf.append_right hab, hfault⟩
    · rw [← openAfter_append hclosed] at hfault
      exact ⟨word, after, hleaf.append_left hab, hfault⟩

theorem FaultAt.length_le
    {before : List Char}
    {err : EvalError}
    (h : FaultAt maxDepth opened text before err) :
    before.length ≤ text.length := by
  obtain ⟨word, after, hleaf, -⟩ := h
  rw [hleaf.text_eq, List.length_append]
  omega

/-- The first fault of two texts side by side is that of the first one, or else that of the
second. -/
theorem FirstFault.append
    {r r' : Option EvalError}
    (ha : FirstFault maxDepth opened a r)
    (hb : FirstFault maxDepth (openAfter opened a) b r')
    (hab : Severed a b)
    (hclosed : a.count ')' ≤ opened + a.count '(') :
    FirstFault maxDepth opened (a ++ b) (r.or r') := by
  cases ha with
  | @present before err hfault hfirst =>
      refine .present ((faultAt_append_iff hab hclosed _ _).mpr (.inl hfault)) ?_
      intro before' err' hfault'
      rcases (faultAt_append_iff hab hclosed _ _).mp hfault' with hfault' | ⟨u, rfl, -⟩
      · exact hfirst before' err' hfault'
      · have hle := hfault.length_le
        rw [List.length_append]
        omega
  | absent hnone =>
      cases hb with
      | absent hnone' =>
          refine .absent fun before err hfault => ?_
          rcases (faultAt_append_iff hab hclosed _ _).mp hfault with hfault | ⟨u, -, hfault⟩
          · exact hnone before err hfault
          · exact hnone' u err hfault
      | @present before err hfault hfirst =>
          refine .present
            ((faultAt_append_iff hab hclosed _ _).mpr (.inr ⟨before, rfl, hfault⟩)) ?_
          intro before' err' hfault'
          rcases (faultAt_append_iff hab hclosed _ _).mp hfault' with hleft | ⟨u, rfl, hright⟩
          · exact absurd hleft (hnone before' err')
          · have hle := hfirst u err' hright
            rw [List.length_append, List.length_append]
            omega

/-- Only leaves can be faulty. -/
theorem firstFault_of_no_word
    (h : ∀ c ∈ text, isWordChar c = false) :
    FirstFault maxDepth opened text none := by
  refine .absent ?_
  rintro before err ⟨word, after, hleaf, -⟩
  obtain ⟨c, hc, hword⟩ := hleaf.exists_isWordChar
  rw [h c hc] at hword
  cases hword

/-- The fault of a text that is a single leaf. -/
theorem firstFault_leaf
    {w : List Char}
    (hw : IsNumeral w ∨ IsIdentifier w) :
    FirstFault maxDepth opened w (leafFault? maxDepth opened w) := by
  have hself : LeafAt w [] w [] := ⟨by simp, hw, by simp, stops_nil⟩
  have hopened : openAfter opened [] = opened := by simp [openAfter]
  cases hfault : leafFault? maxDepth opened w with
  | some err =>
      have hstart : FaultAt maxDepth opened w [] err := ⟨w, [], hself, by rw [hopened, hfault]⟩
      exact .present hstart fun _ _ _ => Nat.zero_le _
  | none =>
      refine .absent ?_
      rintro before err ⟨word, after, hleaf, herr⟩
      have hall := hself.isWordChar
      have hbefore : before = [] := by
        -- A character before the leaf would be a word character.
        by_contra hne
        have hlast := List.getLast?_eq_some_getLast hne
        have hmem : before.getLast hne ∈ w := by
          rw [hleaf.text_eq]
          exact List.mem_append_left _ (List.getLast_mem hne)
        have hword := hall _ hmem
        rw [hleaf.start _ hlast] at hword
        cases hword
      subst hbefore
      rw [hleaf.word_eq hself, hopened, hfault] at herr
      cases herr

/-- Texts without words around a text add no fault. -/
theorem FirstFault.enclosed
    {w : List Char}
    {r : Option EvalError}
    (ha : ∀ c ∈ a, isWordChar c = false)
    (hopened : a.count ')' ≤ opened + a.count '(')
    (hw : FirstFault maxDepth (openAfter opened a) w r)
    (hbalanced : w.count '(' = w.count ')')
    (hb : ∀ c ∈ b, isWordChar c = false) :
    FirstFault maxDepth opened (a ++ (w ++ b)) r := by
  have hstops : Stops b := fun c hc => hb c (List.mem_of_mem_head? hc)
  have hend : FirstFault maxDepth (openAfter opened a) (w ++ b) (r.or none) :=
    hw.append (firstFault_of_no_word hb) (hstops.severed w) (by omega)
  have hlast : ∀ c ∈ a.getLast?, isWordChar c = false :=
    fun c hc => ha c (List.mem_of_getLast? hc)
  have hwhole := (firstFault_of_no_word ha).append hend (severed_of_getLast hlast _) hopened
  simpa using hwhole

/-- A text has one first fault at most. -/
theorem FirstFault.unique
    {r r' : Option EvalError}
    (h : FirstFault maxDepth opened text r)
    (h' : FirstFault maxDepth opened text r') :
    r = r' := by
  cases h with
  | absent hnone =>
      cases h' with
      | absent _ => rfl
      | present hfault _ => exact absurd hfault (hnone _ _)
  | @present before err hfault hfirst =>
      cases h' with
      | absent hnone => exact absurd hfault (hnone _ _)
      | @present before' err' hfault' hfirst' =>
          have hle := hfirst before' err' hfault'
          have hge := hfirst' before err hfault
          obtain ⟨word, after, hleaf, herr⟩ := hfault
          obtain ⟨word', after', hleaf', herr'⟩ := hfault'
          have hbefore : before = before' :=
            (List.append_inj (hleaf.text_eq.symm.trans hleaf'.text_eq) (by omega)).1
          subst hbefore
          rw [hleaf.word_eq hleaf', herr'] at herr
          exact herr.symm

end Faults

theorem NoParens.openAfter_eq
    {w : List Char}
    (hw : NoParens w)
    (opened : Nat) :
    openAfter opened w = opened := by
  simp [openAfter, hw.count_eq]

theorem NoParens.count_le
    {w : List Char}
    (hw : NoParens w)
    (opened : Nat) :
    w.count ')' ≤ opened + w.count '(' := by
  rw [hw.count_eq.2]
  exact Nat.zero_le _

theorem Gaps.isWordChar
    {u : List Char}
    (hu : Gaps u) :
    ∀ c ∈ u, Text.isWordChar c = false :=
  fun c hc => isWordChar_of_isGap (hu c hc)

end Text

namespace Draft

/-- The error of a draft, if it breaks a limit. -/
def error? (maxDepth : Nat) (t : Draft) : Option EvalError :=
  match t.toExpr maxDepth with
  | .ok _ => none
  | .error err => some err

section Nodes

variable {maxDepth nesting : Nat}

theorem error?_integer
    {w : List Char}
    (hw : IsNumeral w) :
    (integer w nesting).error? maxDepth = leafFault? maxDepth nesting w := by
  by_cases hdeep : maxDepth < 2 * nesting + 2
  · simp [error?, toExpr, tooDeep, leafFault?, hdeep]
  · by_cases hfits : Decimal.value w < Decimal.wordBound
    · have hle := (Decimal.lt_wordBound_iff _).mp hfits
      simp [error?, toExpr, tooDeep, leafFault?, hdeep, Decimal.unsigned?, Decimal.word?, hfits,
        Int.not_lt.mpr hle]
    · have hlt : Int64.maxValue.toInt < Decimal.value w := by
        rw [Decimal.lt_wordBound_iff] at hfits
        omega
      simp [error?, toExpr, tooDeep, leafFault?, hdeep, Decimal.unsigned?, Decimal.word?, hfits,
        hlt, hw]

theorem error?_ident
    {w : List Char}
    (hw : IsIdentifier w) :
    (ident w nesting).error? maxDepth = leafFault? maxDepth nesting w := by
  have hnumeral : ¬ IsNumeral w := by
    intro hnumeral
    cases w with
    | nil => exact hw
    | cons c w =>
        have hdigit := hnumeral.2 c (by simp)
        rw [isDigit_of_isWordStart hw.1] at hdigit
        cases hdigit
  by_cases hdeep : maxDepth < 2 * nesting + 2
  · simp [error?, toExpr, tooDeep, leafFault?, hdeep]
  · simp [error?, toExpr, tooDeep, leafFault?, hdeep, hnumeral]

theorem error?_neg
    (t : Draft) :
    (neg t).error? maxDepth = t.error? maxDepth := by
  unfold error?
  rw [toExpr]
  cases t.toExpr maxDepth <;> rfl

theorem error?_binary
    (op : Operator)
    (l r : Draft) :
    (binary op l r).error? maxDepth = (l.error? maxDepth).or (r.error? maxDepth) := by
  unfold error?
  rw [toExpr]
  cases l.toExpr maxDepth with
  | error err => rfl
  | ok left => cases r.toExpr maxDepth <;> rfl

end Nodes

/-- The error of a tree is the first fault of every text that derives it. -/
theorem firstFault_of_derives
    (maxDepth : Nat)
    {level nesting : Nat}
    {w : List Char}
    {t : Draft}
    (hw : grammar.Derives level nesting w t) :
    FirstFault maxDepth nesting w (t.error? maxDepth) := by
  induction hw with
  | leaf hleaf =>
      cases hleaf with
      | integer hw =>
          rw [error?_integer hw]
          exact firstFault_leaf (.inl hw)
      | ident hw =>
          rw [error?_ident hw]
          exact firstFault_leaf (.inr hw)
  | @group nesting u w v t hu hw hv ih =>
      have hopen : openAfter nesting ('(' :: u) = nesting + 1 := by
        simp [openAfter, hu.noParens.count_eq]
      rw [← hopen] at ih
      have hlead : ∀ c ∈ '(' :: u, isWordChar c = false :=
        List.forall_mem_cons.mpr ⟨by decide, hu.isWordChar⟩
      have htrail : ∀ c ∈ v ++ [')'], isWordChar c = false :=
        List.forall_mem_append.mpr ⟨hv.isWordChar, by simp [isWordChar]⟩
      have hcount : ('(' :: u).count ')' ≤ nesting + ('(' :: u).count '(' := by
        simp [hu.noParens.count_eq]
      have hwhole := ih.enclosed hlead hcount (count_of_derives hw) htrail
      simpa using hwhole
  | @neg nesting u w t hu hw ih =>
      have hsign : NoParens ('-' :: u) := .cons (by decide) hu.noParens
      have hlead : ∀ c ∈ '-' :: u, isWordChar c = false :=
        List.forall_mem_cons.mpr ⟨by decide, hu.isWordChar⟩
      rw [← hsign.openAfter_eq nesting] at ih
      have hwhole :=
        ih.enclosed hlead (hsign.count_le nesting) (count_of_derives hw) (b := []) (by simp)
      change FirstFault maxDepth nesting _ ((Draft.neg t).error? maxDepth)
      rw [error?_neg]
      simpa using hwhole
  | @binary _ nesting _ op w₁ u v w₂ l r hop hl hu hv hr ihl ihr =>
      obtain ⟨rfl, rfl⟩ := Grammar.mem_operators_iff.mp hop
      have hbetween : NoParens (u ++ op.symbol.toList ++ v) :=
        (hu.noParens.append op.noParens_symbol).append hv.noParens
      have hword : ∀ c ∈ u ++ op.symbol.toList ++ v, isWordChar c = false :=
        List.forall_mem_append.mpr
          ⟨List.forall_mem_append.mpr ⟨hu.isWordChar, op.isWordChar_symbol⟩, hv.isWordChar⟩
      have hbalanced := count_of_derives hl
      have hopen : openAfter nesting w₁ = nesting := by
        simp [openAfter, hbalanced]
      -- The left operand is read before the right one, so its fault comes first.
      rw [← hbetween.openAfter_eq nesting] at ihr
      have hright :=
        ihr.enclosed hword (hbetween.count_le nesting) (count_of_derives hr) (b := []) (by simp)
      rw [← hopen] at hright
      have hstops : Stops (u ++ op.symbol.toList ++ v ++ (w₂ ++ [])) := by
        have hsymbol := stops_symbol op (v ++ (w₂ ++ []))
        simpa using hu.stops_append hsymbol
      have hwhole := ihl.append hright (hstops.severed w₁) (by omega)
      change FirstFault maxDepth nesting _ ((Draft.binary op l r).error? maxDepth)
      rw [error?_binary]
      simpa using hwhole
  | lift hw ih =>
      exact ih

/-- The same for whole texts. -/
theorem firstFault_of_sentence
    (maxDepth : Nat)
    {text : List Char}
    {t : Draft}
    (ht : grammar.Sentence text t) :
    FirstFault maxDepth 0 text (t.error? maxDepth) := by
  obtain ⟨u, w, v, hu, hw, hv, rfl⟩ := ht
  have hfault := firstFault_of_derives maxDepth hw
  rw [← hu.noParens.openAfter_eq 0] at hfault
  rw [List.append_assoc]
  exact hfault.enclosed hu.isWordChar (hu.noParens.count_le 0) (count_of_derives hw) hv.isWordChar

/-- The leaves of a draft from left to right, each with the number of parentheses around it. -/
def leaves : Draft → List (Nat × List Char)
  | integer digits nesting => [(nesting, digits)]
  | ident name nesting => [(nesting, name)]
  | neg e => e.leaves
  | binary _ l r => l.leaves ++ r.leaves

/-- Operators and minus signs have no part in the error. -/
theorem error?_eq_findSome?
    (maxDepth : Nat)
    {level nesting : Nat}
    {w : List Char}
    {t : Draft}
    (hw : grammar.Derives level nesting w t) :
    t.error? maxDepth = t.leaves.findSome? fun leaf => leafFault? maxDepth leaf.1 leaf.2 := by
  induction hw with
  | leaf hleaf =>
      cases hleaf with
      | integer hw => rw [error?_integer hw, leaves, List.findSome?_singleton]
      | ident hw => rw [error?_ident hw, leaves, List.findSome?_singleton]
  | group hu hw hv ih =>
      exact ih
  | @neg nesting u w t hu hw ih =>
      exact (error?_neg t).trans ih
  | @binary _ nesting _ op w₁ u v w₂ l r hop hl hu hv hr ihl ihr =>
      obtain ⟨rfl, rfl⟩ := Grammar.mem_operators_iff.mp hop
      refine (error?_binary op l r).trans ?_
      rw [ihl, ihr]
      exact List.findSome?_append.symm
  | lift hw ih =>
      exact ih

/-- Two texts with the same leaves have the same error. -/
theorem error?_eq_of_leaves_eq
    (maxDepth : Nat)
    {text text' : List Char}
    {t t' : Draft}
    (ht : grammar.Sentence text t)
    (ht' : grammar.Sentence text' t')
    (hleaves : t'.leaves = t.leaves) :
    t'.error? maxDepth = t.error? maxDepth := by
  obtain ⟨_, _, _, _, hw, _, _⟩ := ht
  obtain ⟨_, _, _, _, hw', _, _⟩ := ht'
  rw [error?_eq_findSome? maxDepth hw, error?_eq_findSome? maxDepth hw', hleaves]

end Draft

namespace Expr

variable {text : String}
variable {t : Draft}

theorem parse_eq_error_iff
    (maxDepth : Nat)
    (ht : Draft.grammar.Sentence text.toList t)
    (err : EvalError) :
    parse text maxDepth = .error err ↔ t.error? maxDepth = some err := by
  rw [parse_eq_toExpr maxDepth ht, Draft.error?]
  cases t.toExpr maxDepth <;> simp

/-- Errors beyond the form of a text are chosen from left to right.  In a text that is an
expression, the leftmost leaf that is nested too deeply or too large decides the error, and without
such a leaf there is none.  Only the leaves count: the error is the same in every text that has the
same leaves, whatever operators and minus signs stand between them. -/
theorem parse_error_leftmost
    (text : String)
    (maxDepth : Nat)
    (t : Draft)
    (ht : Draft.grammar.Sentence text.toList t) :
    (∀ err, parse text maxDepth = .error err ↔
      ∃ before, FaultAt maxDepth 0 text.toList before err ∧
        ∀ before' err', FaultAt maxDepth 0 text.toList before' err' →
          before.length ≤ before'.length) ∧
    ((∃ before err, FaultAt maxDepth 0 text.toList before err) →
      ∃ err, parse text maxDepth = .error err) ∧
    ((∀ before err, ¬ FaultAt maxDepth 0 text.toList before err) →
      parse text maxDepth = .ok t.tree) ∧
    (∀ text' t', Draft.grammar.Sentence text'.toList t' → t'.leaves = t.leaves →
      ∀ err, parse text' maxDepth = .error err ↔ parse text maxDepth = .error err) := by
  have hfirst := Draft.firstFault_of_sentence maxDepth ht
  refine ⟨?_, ?_, ?_, ?_⟩
  · intro err
    rw [parse_eq_error_iff maxDepth ht]
    constructor
    · intro herr
      rw [herr] at hfirst
      cases hfirst with
      | present hfault hle => exact ⟨_, hfault, hle⟩
    · rintro ⟨before, hfault, hle⟩
      exact hfirst.unique (.present hfault hle)
  · rintro ⟨before, err, hfault⟩
    cases herr : t.error? maxDepth with
    | some err' => exact ⟨err', (parse_eq_error_iff maxDepth ht err').mpr herr⟩
    | none =>
        rw [herr] at hfirst
        cases hfirst with
        | absent hnone => exact absurd hfault (hnone before err)
  · intro hnone
    have herr : t.error? maxDepth = none := hfirst.unique (.absent hnone)
    rw [parse_eq_toExpr maxDepth ht]
    unfold Draft.error? at herr
    cases hexpr : t.toExpr maxDepth with
    | error err =>
        rw [hexpr] at herr
        cases herr
    | ok e => rw [((Draft.toExpr_eq_ok_iff maxDepth t e).mp hexpr).2]
  · intro text' t' ht' hleaves err
    rw [parse_eq_error_iff maxDepth ht, parse_eq_error_iff maxDepth ht',
      Draft.error?_eq_of_leaves_eq maxDepth ht ht' hleaves]

/-- A literal that is too large, and behind it a leaf that is nested too deeply and belongs to an
operator that binds more tightly.  The literal decides. -/
theorem largeBeforeDeep_leftmost :
    (∃ t, Draft.grammar.Sentence "(1) < 009223372036854775808 + ((x)) * -2".toList t) ∧
    parse "(1) < 009223372036854775808 + ((x)) * -2" 4 =
      .error (.invalidNumber "009223372036854775808") ∧
    (∃ before, FaultAt 4 0 "(1) < 009223372036854775808 + ((x)) * -2".toList before
        (.invalidNumber "009223372036854775808") ∧
      ∀ before' err',
        FaultAt 4 0 "(1) < 009223372036854775808 + ((x)) * -2".toList before' err' →
          before.length ≤ before'.length) := by
  have ht : ∃ t, Draft.grammar.Sentence "(1) < 009223372036854775808 + ((x)) * -2".toList t :=
    ⟨_, Draft.sentence_of_parse rfl⟩
  have hparse :
      parse "(1) < 009223372036854775808 + ((x)) * -2" 4 =
        .error (.invalidNumber "009223372036854775808") := by
    decide +kernel
  obtain ⟨t, hsentence⟩ := id ht
  exact ⟨ht, hparse, ((parse_error_leftmost _ 4 t hsentence).1 _).mp hparse⟩

end Expr
end GraphMachine
