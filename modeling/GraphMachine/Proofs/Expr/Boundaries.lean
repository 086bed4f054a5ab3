import GraphMachine.Proofs.Expr.Lexing

/-!
# Where tokens end

The tokens of two texts side by side are the tokens of each, unless a word goes on from the one
text into the other or an equals sign completes an operator.

So a row of digits can be exchanged for another one wherever it stands.  It may be a part of a
longer numeral or of an identifier, but it is the same part of the same kind of token afterwards.
-/

namespace GraphMachine

open Text

namespace Token

/-- What is found after some characters that a token has taken. -/
theorem map_token_lexFrom_taken
    (position taken : Nat)
    (cs : List Char) :
    (lexFrom position taken cs).map Lexeme.token = tokens (cs.drop taken) := by
  induction cs generalizing position taken with
  | nil =>
      cases taken <;> rfl
  | cons c cs ih =>
      cases taken with
      | zero =>
          exact map_token_lexFrom _ _ 0 (c :: cs)
      | succ taken =>
          simp only [lexFrom, List.drop_succ_cons]
          exact ih _ taken

/-- The first token of a text and the tokens of what it leaves. -/
theorem tokens_cons
    {c : Char}
    (cs : List Char)
    (hgap : isGap c = false) :
    tokens (c :: cs) = (startingAt c cs).1 :: tokens (cs.drop (startingAt c cs).2) := by
  simp only [tokens, lex, lexFrom, hgap, Bool.false_eq_true, if_false, List.map_cons]
  rw [map_token_lexFrom_taken]
  rfl

/-- Whether two characters side by side can belong to one token. -/
def joins (a b : Char) : Bool :=
  (isWordChar a && isWordChar b) || (['=', '!', '<', '>'].contains a && b == '=')

/-- Two texts side by side of which no token has characters of both. -/
def Apart (u v : List Char) : Prop :=
  ∀ a ∈ u.getLast?, ∀ b ∈ v.head?, joins a b = false

theorem Apart.of_cons
    {c : Char}
    {u v : List Char}
    (h : Apart (c :: u) v) :
    Apart u v := by
  intro a ha b hb
  apply h a _ b hb
  rw [Option.mem_def] at ha ⊢
  rw [List.getLast?_cons, ha]
  rfl

theorem Apart.drop
    {u v : List Char}
    (h : Apart u v)
    (k : Nat) :
    Apart (u.drop k) v := by
  induction k generalizing u with
  | zero =>
      exact h
  | succ k ih =>
      cases u with
      | nil =>
          exact h
      | cons c u =>
          exact ih h.of_cons

/-- A run of word characters does not go on into a text that is apart. -/
theorem takeWhile_append_of_apart
    {p : Char → Bool}
    {c : Char}
    {u v : List Char}
    (hp : ∀ d, p d = true → isWordChar d = true)
    (hc : p c = true)
    (h : Apart (c :: u) v) :
    (u ++ v).takeWhile p = u.takeWhile p := by
  rw [List.takeWhile_append]
  split
  · next hall =>
      have hwhole : u.takeWhile p = u := (List.takeWhile_prefix p).eq_of_length hall
      have hword : ∀ d ∈ c :: u, isWordChar d = true := by
        intro d hd
        rcases List.mem_cons.mp hd with rfl | hd
        · exact hp d hc
        · rw [← hwhole] at hd
          exact hp d (List.mem_takeWhile_imp hd)
      have hstop : v.takeWhile p = [] := by
        cases v with
        | nil =>
            rfl
        | cons b v =>
            have hlast := List.getLast_mem (List.cons_ne_nil c u)
            have hjoins := h _ (List.getLast?_eq_some_getLast (List.cons_ne_nil c u)) b (by simp)
            have hb : isWordChar b = false := by
              simp only [joins, hword _ hlast, Bool.true_and, Bool.or_eq_false_iff] at hjoins
              exact hjoins.1
            have hnot : p b = false := by
              cases hpb : p b with
              | false => rfl
              | true => rw [hp b hpb] at hb; cases hb
            simp [hnot]
      rw [hstop, List.append_nil, hwhole]
  · rfl

theorem isWordChar_of_isDigit
    (c : Char)
    (hc : c.isDigit = true) :
    isWordChar c = true := by
  simp [isWordChar, Char.isAlphanum, hc]

/-- An operator or parenthesis depends on the next character alone. -/
theorem symbolAt_append
    {c : Char}
    {u v : List Char}
    (h : Apart (c :: u) v) :
    symbolAt c (u ++ v) = symbolAt c u := by
  cases u with
  | cons d u =>
      unfold symbolAt
      split <;> simp_all
  | nil =>
      cases v with
      | nil =>
          rfl
      | cons b v =>
          have hjoins : joins c b = false := h c rfl b rfl
          unfold symbolAt
          split <;> simp_all [joins]

theorem startingAt_append
    {c : Char}
    {u v : List Char}
    (h : Apart (c :: u) v) :
    startingAt c (u ++ v) = startingAt c u := by
  unfold startingAt
  split
  · next hdigit =>
      rw [takeWhile_append_of_apart isWordChar_of_isDigit hdigit h]
  · split
    · next hstart =>
        have hword : isWordChar c = true :=
          IsIdentifier.isWordChar (w := [c]) ⟨hstart, by simp⟩ c (by simp)
        rw [takeWhile_append_of_apart (fun _ hd => hd) hword h]
    · exact symbolAt_append h

theorem taken_le_length
    (c : Char)
    (cs : List Char) :
    (startingAt c cs).2 ≤ cs.length := by
  unfold startingAt
  split
  · exact (List.takeWhile_prefix _).length_le
  · split
    · exact (List.takeWhile_prefix _).length_le
    · unfold symbolAt
      split <;> simp

/-- Texts that are apart have their tokens one after the other. -/
theorem tokens_append
    {u v : List Char}
    (h : Apart u v) :
    tokens (u ++ v) = tokens u ++ tokens v := by
  -- The induction is on the length of the first text, because a token takes several characters.
  induction hlength : u.length using Nat.strong_induction_on generalizing u with
  | _ length ih =>
      cases u with
      | nil =>
          rfl
      | cons c u =>
          rw [List.length_cons] at hlength
          cases hgap : isGap c with
          | true =>
              rw [List.cons_append, tokens_gap hgap, tokens_gap hgap]
              exact ih u.length (by omega) h.of_cons rfl
          | false =>
              have hle := taken_le_length c u
              rw [List.cons_append, tokens_cons _ hgap, tokens_cons _ hgap, startingAt_append h,
                List.drop_append_of_le_length hle]
              have hrest :=
                ih (u.drop (startingAt c u).2).length (by simp; omega) (h.of_cons.drop _) rfl
              rw [hrest, List.cons_append]

section Exchange

/-- Tokens of the same kind: numerals, identifiers, or the same operator, parenthesis or stray
character. -/
inductive Like : Token → Token → Prop
  | integer (w w' : List Char) : Like (.integer w) (.integer w')
  | ident (w w' : List Char) : Like (.ident w) (.ident w')
  | same (t : Token) : Like t t

theorem Like.symm
    {t t' : Token}
    (h : Like t t') :
    Like t' t := by
  cases h with
  | integer w w' => exact .integer w' w
  | ident w w' => exact .ident w' w
  | same t => exact .same t

theorem forall₂_like_refl
    (ts : List Token) :
    List.Forall₂ Like ts ts := by
  exact List.forall₂_same.mpr fun t _ => .same t

theorem drop_length_takeWhile
    (p : Char → Bool)
    (cs : List Char) :
    cs.drop (cs.takeWhile p).length = cs.dropWhile p := by
  have hbegins := List.prefix_iff_eq_append.mp (List.takeWhile_prefix p (l := cs))
  have hsplit := List.takeWhile_append_dropWhile (p := p) (l := cs)
  exact List.append_cancel_left (hbegins.trans hsplit.symm)

/-- A numeral takes all digits that follow it. -/
theorem tokens_numeral_append
    {w : List Char}
    (hw : IsNumeral w)
    (v : List Char) :
    tokens (w ++ v) =
      .integer (w ++ v.takeWhile Char.isDigit) :: tokens (v.dropWhile Char.isDigit) := by
  cases w with
  | nil =>
      exact absurd rfl hw.1
  | cons c ds =>
      have hc : c.isDigit = true := hw.2 c (by simp)
      have hds : ∀ d ∈ ds, d.isDigit = true := fun d hd => hw.2 d (List.mem_cons_of_mem c hd)
      have hgap := isGap_of_isWordChar (isWordChar_of_isDigit c hc)
      rw [List.cons_append, tokens_cons _ hgap]
      simp only [startingAt, hc, if_true]
      rw [drop_length_takeWhile, List.takeWhile_append_of_pos hds, List.dropWhile_append_of_pos hds]
      rfl

/-- An identifier takes all word characters that follow it. -/
theorem tokens_identifier_append
    {w : List Char}
    (hw : IsIdentifier w)
    (v : List Char) :
    tokens (w ++ v) =
      .ident (w ++ v.takeWhile isWordChar) :: tokens (v.dropWhile isWordChar) := by
  have hwhole : IsIdentifier (w ++ v.takeWhile isWordChar) := by
    cases w with
    | nil =>
        exact hw.elim
    | cons c cs =>
        refine ⟨hw.1, ?_⟩
        intro d hd
        rcases List.mem_append.mp hd with hd | hd
        · exact hw.2 d hd
        · exact List.mem_takeWhile_imp hd
  have hstops : Stops (v.dropWhile isWordChar) := head_dropWhile isWordChar v
  rw [← tokens_identifier hwhole hstops, List.append_assoc, List.takeWhile_append_dropWhile]

theorem isWordStart_of_isWordChar
    {c : Char}
    (hc : isWordChar c = true)
    (hdigit : c.isDigit = false) :
    isWordStart c = true := by
  simpa [isWordStart, isWordChar, Char.isAlphanum, hdigit] using hc

/-- Every text ends with a run of word characters, which may be empty. -/
theorem exists_word_suffix
    (u : List Char) :
    ∃ start word,
      u = start ++ word ∧
      (∀ a ∈ start.getLast?, isWordChar a = false) ∧
      ∀ c ∈ word, isWordChar c = true := by
  induction u using List.reverseRecOn with
  | nil =>
      exact ⟨[], [], rfl, by simp, by simp⟩
  | append_singleton u c ih =>
      cases hc : isWordChar c with
      | false =>
          exact ⟨u ++ [c], [], by simp, by simpa using hc, by simp⟩
      | true =>
          obtain ⟨start, word, rfl, hstart, hword⟩ := ih
          refine ⟨start, word ++ [c], by simp, hstart, ?_⟩
          intro d hd
          rcases List.mem_append.mp hd with hd | hd
          · exact hword d hd
          · rw [List.mem_singleton.mp hd]
            exact hc

/-- A row of digits is apart from a text that starts with no digit, even with a letter. -/
theorem tokens_digits_append
    {ds rest : List Char}
    (hds : ∀ d ∈ ds, d.isDigit = true)
    (hrest : ∀ c ∈ rest.head?, c.isDigit = false) :
    tokens (ds ++ rest) = tokens ds ++ tokens rest := by
  cases ds with
  | nil =>
      rfl
  | cons d ds =>
      have hnumeral : IsNumeral (d :: ds) := ⟨by simp, hds⟩
      have htake : rest.takeWhile Char.isDigit = [] :=
        takeWhile_append_of_head (w := []) (by simp) hrest
      have hdrop : rest.dropWhile Char.isDigit = rest :=
        dropWhile_append_of_head (w := []) (by simp) hrest
      rw [tokens_numeral_append hnumeral, htake, hdrop, List.append_nil,
        ← List.append_nil (d :: ds), tokens_numeral_append hnumeral]
      simp

/-- After a row of digits, word characters go on as an identifier. -/
theorem isIdentifier_dropWhile_isDigit
    {word : List Char}
    (hword : ∀ c ∈ word, isWordChar c = true)
    (hletter : word.dropWhile Char.isDigit ≠ []) :
    IsIdentifier (word.dropWhile Char.isDigit) := by
  cases hrest : word.dropWhile Char.isDigit with
  | nil =>
      exact absurd hrest hletter
  | cons c cs =>
      have hmem : ∀ d ∈ c :: cs, isWordChar d = true := by
        rw [← hrest]
        exact fun d hd => hword d ((List.dropWhile_suffix _).subset hd)
      have hdigit : c.isDigit = false := head_dropWhile Char.isDigit word c (by simp [hrest])
      refine ⟨isWordStart_of_isWordChar (hmem c (by simp)) hdigit, ?_⟩
      exact fun d hd => hmem d (List.mem_cons_of_mem c hd)

/-- A run of word characters is apart from a text that does not end with one. -/
theorem apart_word
    {start word : List Char}
    (hstart : ∀ a ∈ start.getLast?, isWordChar a = false)
    (hword : ∀ b ∈ word.head?, isWordChar b = true) :
    Apart start word := by
  intro a ha b hb
  have hne : b ≠ '=' := by
    rintro rfl
    exact absurd (hword _ hb) (by decide)
  simp [joins, hstart a ha, hne]

/-- A numeral after word characters is a part of a numeral or of an identifier. -/
theorem like_exchange_after_word
    {word w w' : List Char}
    (hword : ∀ c ∈ word, isWordChar c = true)
    (hw : IsNumeral w)
    (hw' : IsNumeral w')
    (v : List Char) :
    List.Forall₂ Like (tokens (word ++ (w ++ v))) (tokens (word ++ (w' ++ v))) := by
  by_cases hletter : word.dropWhile Char.isDigit = []
  · have hdigits : ∀ c ∈ word, c.isDigit = true := by
      simpa using hletter
    have hnumeral {x : List Char} (hx : IsNumeral x) : IsNumeral (word ++ x) := by
      refine ⟨by simp [hx.1], ?_⟩
      intro c hc
      exact (List.mem_append.mp hc).elim (hdigits c) (hx.2 c)
    rw [← List.append_assoc, ← List.append_assoc, tokens_numeral_append (hnumeral hw),
      tokens_numeral_append (hnumeral hw')]
    exact .cons (.integer _ _) (forall₂_like_refl _)
  · have hident := isIdentifier_dropWhile_isDigit hword hletter
    have hdigits : ∀ d ∈ word.takeWhile Char.isDigit, d.isDigit = true :=
      fun d hd => List.mem_takeWhile_imp hd
    -- The digits before the first letter are a token that the exchange does not reach.
    have htokens {x : List Char} (hx : IsNumeral x) :
        tokens (word ++ (x ++ v)) =
          tokens (word.takeWhile Char.isDigit) ++
            .ident (word.dropWhile Char.isDigit ++ (x ++ v.takeWhile isWordChar)) ::
              tokens (v.dropWhile isWordChar) := by
      have hhead :
          ∀ c ∈ (word.dropWhile Char.isDigit ++ (x ++ v)).head?, c.isDigit = false := by
        rw [List.head?_append_of_ne_nil _ hletter]
        exact head_dropWhile Char.isDigit word
      nth_rewrite 1 [← List.takeWhile_append_dropWhile (p := Char.isDigit) (l := word)]
      rw [List.append_assoc, tokens_digits_append hdigits hhead, tokens_identifier_append hident,
        List.takeWhile_append_of_pos hx.isWordChar, List.dropWhile_append_of_pos hx.isWordChar]
    rw [htokens hw, htokens hw']
    exact List.rel_append (forall₂_like_refl _) (.cons (.ident _ _) (forall₂_like_refl _))

/-- Exchanging a numeral for another one changes no token into one of another kind. -/
theorem like_exchange_numeral
    {w w' : List Char}
    (hw : IsNumeral w)
    (hw' : IsNumeral w')
    (u v : List Char) :
    List.Forall₂ Like (tokens (u ++ (w ++ v))) (tokens (u ++ (w' ++ v))) := by
  obtain ⟨start, word, rfl, hstart, hword⟩ := exists_word_suffix u
  have hapart {x : List Char} (hx : IsNumeral x) : Apart start (word ++ (x ++ v)) := by
    apply apart_word hstart
    intro b hb
    rw [← List.append_assoc, List.head?_append_of_ne_nil _ (by simp [hx.1])] at hb
    rcases List.mem_append.mp (List.mem_of_mem_head? hb) with hb | hb
    · exact hword b hb
    · exact hx.isWordChar b hb
  rw [List.append_assoc, List.append_assoc, tokens_append (hapart hw), tokens_append (hapart hw')]
  exact List.rel_append (forall₂_like_refl _) (like_exchange_after_word hword hw hw' v)

end Exchange

/-- Tokens that complete an operand. -/
def endsOperand : Token → Bool
  | .integer _ => true
  | .ident _ => true
  | .closing => true
  | _ => false

/-- Tokens that can stand only where an operand has to come. -/
def beginsOperand : Token → Bool
  | .integer _ => true
  | .ident _ => true
  | .opening => true
  | _ => false

/-- Word characters end with a numeral or an identifier. -/
theorem exists_tokens_word
    {word : List Char}
    (hne : word ≠ [])
    (hword : ∀ c ∈ word, isWordChar c = true) :
    ∃ ts t, tokens word = ts ++ [t] ∧ t.endsOperand = true := by
  by_cases hletter : word.dropWhile Char.isDigit = []
  · have hnumeral : IsNumeral word := ⟨hne, by simpa using hletter⟩
    refine ⟨[], .integer word, ?_, rfl⟩
    simpa using tokens_numeral hnumeral stops_nil
  · have hident := isIdentifier_dropWhile_isDigit hword hletter
    have hdigits : ∀ d ∈ word.takeWhile Char.isDigit, d.isDigit = true :=
      fun d hd => List.mem_takeWhile_imp hd
    have hhead := head_dropWhile Char.isDigit word
    refine ⟨tokens (word.takeWhile Char.isDigit), .ident (word.dropWhile Char.isDigit), ?_, rfl⟩
    nth_rewrite 1 [← List.takeWhile_append_dropWhile (p := Char.isDigit) (l := word)]
    rw [tokens_digits_append hdigits hhead]
    simpa using tokens_identifier hident stops_nil

/-- A text that ends with a word character or a closing parenthesis ends an operand. -/
theorem exists_tokens_of_getLast
    {cs : List Char}
    {a : Char}
    (hlast : cs.getLast? = some a)
    (ha : isWordChar a = true ∨ a = ')') :
    ∃ ts t, tokens cs = ts ++ [t] ∧ t.endsOperand = true := by
  rcases ha with ha | rfl
  · obtain ⟨start, word, rfl, hstart, hword⟩ := exists_word_suffix cs
    have hne : word ≠ [] := by
      rintro rfl
      rw [List.append_nil] at hlast
      rw [hstart a hlast] at ha
      cases ha
    obtain ⟨ts, t, htokens, ht⟩ := exists_tokens_word hne hword
    refine ⟨tokens start ++ ts, t, ?_, ht⟩
    have hapart : Apart start word :=
      apart_word hstart fun b hb => hword b (List.mem_of_mem_head? hb)
    rw [tokens_append hapart, htokens, List.append_assoc]
  · obtain ⟨start, rfl⟩ := List.getLast?_eq_some_iff.mp hlast
    refine ⟨tokens start, .closing, ?_, rfl⟩
    rw [tokens_append, tokens_closing, tokens_nil]
    intro b _ c hc
    simp only [List.head?_cons, Option.mem_some_iff] at hc
    subst hc
    simp [joins, isWordChar]

/-- A text that starts with a digit or an opening parenthesis begins an operand. -/
theorem exists_tokens_of_head
    {cs : List Char}
    {b : Char}
    (hhead : cs.head? = some b)
    (hb : b.isDigit = true ∨ b = '(') :
    ∃ t ts, tokens cs = t :: ts ∧ t.beginsOperand = true := by
  obtain ⟨cs, rfl⟩ := List.head?_eq_some_iff.mp hhead
  rcases hb with hb | rfl
  · have hnumeral : IsNumeral [b] := ⟨by simp, by simpa using hb⟩
    exact ⟨_, _, tokens_numeral_append hnumeral cs, rfl⟩
  · exact ⟨_, _, tokens_opening cs, rfl⟩

end Token
end GraphMachine
