import GraphMachine.Proofs.Expr.Grammar

/-!
# Tokens and the texts that spell them

A text is cut into the tokens that spell it: a token is read from its spelling whenever the text
goes on with a character that does not belong to it, and gaps are passed over.  Conversely every
token that is found spells the part of the text that it takes.
-/

namespace GraphMachine

open Text

namespace Token

/-- The tokens of a text without their positions. -/
def tokens (cs : List Char) : List Token :=
  (lex cs).map Lexeme.token

/-- Positions do not decide which tokens are found. -/
theorem map_token_lexFrom
    (p q taken : Nat)
    (cs : List Char) :
    (lexFrom p taken cs).map Lexeme.token =
      (lexFrom q taken cs).map Lexeme.token := by
  induction cs generalizing p q taken with
  | nil =>
      cases taken <;> rfl
  | cons c cs ih =>
      cases taken with
      | zero =>
          simp only [lexFrom]
          split
          · exact ih _ _ 0
          · simp only [List.map_cons]
            rw [ih (p + c.utf8Size) (q + c.utf8Size)]
      | succ taken =>
          simp only [lexFrom]
          exact ih _ _ taken

/-- Characters that a token has taken are passed over. -/
theorem lexFrom_length_append
    (position : Nat)
    (w rest : List Char) :
    lexFrom position w.length (w ++ rest) =
      lexFrom (position + byteLength w) 0 rest := by
  induction w generalizing position with
  | nil =>
      simp
  | cons c w ih =>
      simp only [List.length_cons, List.cons_append, lexFrom, ih, byteLength_cons,
        Nat.add_assoc]

@[simp] theorem tokens_nil :
    tokens [] = [] := by
  rfl

theorem tokens_gap
    {c : Char}
    {cs : List Char}
    (hc : isGap c = true) :
    tokens (c :: cs) = tokens cs := by
  simp only [tokens, lex, lexFrom, hc, if_true]
  exact map_token_lexFrom _ _ 0 cs

theorem tokens_gaps
    {u : List Char}
    (rest : List Char)
    (hu : Gaps u) :
    tokens (u ++ rest) = tokens rest := by
  induction u with
  | nil =>
      rfl
  | cons c u ih =>
      have hc : isGap c = true := hu c (by simp)
      have htail : Gaps u := fun d hd => hu d (List.mem_cons_of_mem c hd)
      rw [List.cons_append, tokens_gap hc, ih htail]

/-- A token that takes `w` after its first character stands before the tokens of the rest. -/
theorem tokens_cons_append
    {c : Char}
    {w rest : List Char}
    {found : Token}
    (hgap : isGap c = false)
    (hfound : startingAt c (w ++ rest) = (found, w.length)) :
    tokens (c :: (w ++ rest)) = found :: tokens rest := by
  simp only [tokens, lex, lexFrom, hgap, Bool.false_eq_true, if_false, hfound, List.map_cons,
    lexFrom_length_append]
  rw [map_token_lexFrom _ 0]

theorem tokens_numeral
    {w rest : List Char}
    (hw : IsNumeral w)
    (hrest : Stops rest) :
    tokens (w ++ rest) = .integer w :: tokens rest := by
  cases w with
  | nil =>
      exact absurd rfl hw.1
  | cons c ds =>
      have hc : c.isDigit = true := hw.2 c (by simp)
      have hds : ∀ d ∈ ds, d.isDigit = true := fun d hd => hw.2 d (List.mem_cons_of_mem c hd)
      have hmore : (ds ++ rest).takeWhile Char.isDigit = ds :=
        takeWhile_append_of_head hds hrest.isDigit
      apply tokens_cons_append
      · exact isGap_of_isWordChar (hw.isWordChar c (by simp))
      · simp [startingAt, hc, hmore]

theorem tokens_identifier
    {w rest : List Char}
    (hw : IsIdentifier w)
    (hrest : Stops rest) :
    tokens (w ++ rest) = .ident w :: tokens rest := by
  cases w with
  | nil =>
      exact hw.elim
  | cons c ds =>
      have hdigit : c.isDigit = false := isDigit_of_isWordStart hw.1
      have hmore : (ds ++ rest).takeWhile isWordChar = ds :=
        takeWhile_append_of_head hw.2 hrest
      apply tokens_cons_append
      · exact isGap_of_isWordChar (hw.isWordChar c (by simp))
      · simp [startingAt, hdigit, hw.1, hmore]

theorem tokens_opening
    (rest : List Char) :
    tokens ('(' :: rest) = .opening :: tokens rest := by
  exact tokens_cons_append (w := []) (by decide) rfl

theorem tokens_closing
    (rest : List Char) :
    tokens (')' :: rest) = .closing :: tokens rest := by
  exact tokens_cons_append (w := []) (by decide) rfl

/-- An operator is read from its symbol.  What follows must not turn `<` into `<=`. -/
theorem tokens_operator
    (op : Operator)
    {rest : List Char}
    (hrest : ∀ c ∈ rest.head?, c ≠ '=') :
    tokens (op.symbol.toList ++ rest) = .operator op :: tokens rest := by
  cases op with
  | arith op =>
      cases op <;> exact tokens_cons_append (w := []) (by decide) rfl
  | compare op =>
      cases op with
      | eq => exact tokens_cons_append (w := ['=']) (by decide) rfl
      | ne => exact tokens_cons_append (w := ['=']) (by decide) rfl
      | le => exact tokens_cons_append (w := ['=']) (by decide) rfl
      | ge => exact tokens_cons_append (w := ['=']) (by decide) rfl
      | lt =>
          change tokens ('<' :: ([] ++ rest)) = _
          refine tokens_cons_append (by decide) ?_
          cases rest with
          | nil => rfl
          | cons c rest =>
              have hc : c ≠ '=' := hrest c (by simp)
              simp [startingAt, isWordStart, symbolAt, hc]
      | gt =>
          change tokens ('>' :: ([] ++ rest)) = _
          refine tokens_cons_append (by decide) ?_
          cases rest with
          | nil => rfl
          | cons c rest =>
              have hc : c ≠ '=' := hrest c (by simp)
              simp [startingAt, isWordStart, symbolAt, hc]

/-- How tokens are written.  A stray character is a token of its own. -/
inductive Spells : List Char → Token → Prop
  | integer
      {w : List Char}
      (hw : IsNumeral w) :
      Spells w (.integer w)
  | ident
      {w : List Char}
      (hw : IsIdentifier w) :
      Spells w (.ident w)
  | operator
      (op : Operator) :
      Spells op.symbol.toList (.operator op)
  | opening :
      Spells ['('] .opening
  | closing :
      Spells [')'] .closing
  | stray
      (c : Char) :
      Spells [c] (.stray c)

theorem Spells.ne_nil
    {w : List Char}
    {t : Token}
    (h : Spells w t) :
    w ≠ [] := by
  cases h with
  | integer hw => exact hw.1
  | ident hw =>
      rintro rfl
      exact hw.elim
  | operator op => exact op.symbol_ne_nil
  | opening => simp
  | closing => simp
  | stray c => simp

theorem spells_symbolAt
    (c : Char)
    (cs : List Char) :
    Spells (c :: cs.take (symbolAt c cs).2) (symbolAt c cs).1 := by
  unfold symbolAt
  split
  · exact .opening
  · exact .closing
  · exact .operator (.compare .eq)
  · exact .operator (.compare .ne)
  · exact .operator (.compare .le)
  · exact .operator (.compare .ge)
  · exact .operator (.compare .lt)
  · exact .operator (.compare .gt)
  · exact .operator (.arith .add)
  · exact .operator (.arith .sub)
  · exact .operator (.arith .mul)
  · exact .operator (.arith .div)
  · exact .operator (.arith .rem)
  · exact .stray _

/-- A token spells the characters that it takes. -/
theorem spells_startingAt
    (c : Char)
    (cs : List Char) :
    Spells (c :: cs.take (startingAt c cs).2) (startingAt c cs).1 := by
  unfold startingAt
  split
  · next hdigit =>
      simp only [take_length_takeWhile]
      refine .integer ⟨by simp, ?_⟩
      intro d hd
      rcases List.mem_cons.mp hd with rfl | hd
      · exact hdigit
      · exact List.mem_takeWhile_imp hd
  · next =>
      split
      · next hstart =>
          simp only [take_length_takeWhile]
          exact .ident ⟨hstart, fun d hd => List.mem_takeWhile_imp hd⟩
      · next =>
          exact spells_symbolAt c cs

end Token
end GraphMachine
