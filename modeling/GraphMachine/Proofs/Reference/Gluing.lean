import GraphMachine.Proofs.Expr.Faults
import GraphMachine.Proofs.Outcome
import GraphMachine.Proofs.Reference.Substitution

/-!
# References that touch their neighbours

A value is put into the text before the text is cut into tokens, so it may run together with what
stands next to it.  A reference is glued if it comes right after a word character or right before
a digit, where another reference counts as a digit.

A value that is not negative is a numeral, and the kinds of tokens around it are those that a zero
would give.  A negative value is a group, which can never be glued to anything.  So the
values in memory decide whether a text is an expression through one thing alone: whether some glued
reference is negative.
-/

namespace GraphMachine

open Text

namespace Template

section Operands

open Token Draft

theorem isNumeral_operand
    {v : Int64}
    (hv : ¬ v < 0) :
    IsNumeral (operand v) := by
  have hnonneg : 0 ≤ v.toInt := by
    rw [Decimal.lt_zero_iff] at hv
    omega
  obtain ⟨n, hn⟩ := Int.eq_ofNat_of_zero_le hnonneg
  have hmin : v ≠ Int64.minValue := by
    rintro rfl
    exact hv (by decide)
  simp only [operand, hmin, hv, if_false, plain]
  rw [Decimal.toList_ofWord hn]
  exact Decimal.isNumeral_toDigits n

theorem exists_operand_group
    {v : Int64}
    (hv : v < 0) :
    ∃ inner, operand v = '(' :: (inner ++ [')']) := by
  by_cases hmin : v = Int64.minValue
  · subst hmin
    exact ⟨"-9223372036854775807 - 1".toList, by decide⟩
  · exact ⟨plain v, by simp [operand, hmin, hv]⟩

/-- Every value is written as a primary. -/
theorem isPrimary_operand
    (v : Int64) :
    IsPrimary (tokens (operand v)) := by
  have hderives (n : Nat) : ∃ t, grammar.Derives 6 n (operand v) t := by
    obtain ⟨t, ht, _⟩ :=
      exists_operand ⟨Memory.empty, .tape⟩ v (Nat.le_refl (2 * n + 4))
    exact ⟨t, ht⟩
  by_cases hv : v < 0
  · obtain ⟨inner, hinner⟩ := exists_operand_group hv
    exact isPrimary_of_derives hderives (by rw [hinner]; rfl) (.inr rfl)
  · have hnumeral := isNumeral_operand hv
    cases hdigits : operand v with
    | nil =>
        exact absurd hdigits hnumeral.1
    | cons d ds =>
        have hd : d.isDigit = true := hnumeral.2 d (by simp [hdigits])
        rw [← hdigits]
        exact isPrimary_of_derives hderives (by rw [hdigits]; rfl) (.inl hd)

/-- The tokens of a negative value stand between those of its neighbours. -/
theorem tokens_operand_of_neg
    {v : Int64}
    (hv : v < 0)
    (u w : List Char) :
    tokens (u ++ (operand v ++ w)) = tokens u ++ (tokens (operand v) ++ tokens w) := by
  obtain ⟨inner, hinner⟩ := exists_operand_group hv
  have hbefore : Apart u (operand v ++ w) := by
    intro a _ b hb
    rw [hinner] at hb
    simp only [List.cons_append, List.head?_cons, Option.mem_some_iff] at hb
    subst hb
    simp [joins, isWordChar]
  have hafter : Apart (operand v) w := by
    intro a ha b _
    rw [hinner, ← List.cons_append] at ha
    simp only [List.getLast?_concat, Option.mem_some_iff] at ha
    subst ha
    simp [joins, isWordChar]
  rw [tokens_append hbefore, tokens_append hafter]

/-- The tokens of a numeral stand between those of its neighbours if it comes after no word
character and before no digit. -/
theorem tokens_numeral_between
    {x u w : List Char}
    (hx : IsNumeral x)
    (hu : ∀ a ∈ u.getLast?, isWordChar a = false)
    (hw : ∀ b ∈ w.head?, b.isDigit = false) :
    tokens (u ++ (x ++ w)) = tokens u ++ (tokens x ++ tokens w) := by
  have hbefore : Apart u (x ++ w) := by
    apply apart_word hu
    intro b hb
    rw [List.head?_append_of_ne_nil _ hx.1] at hb
    exact hx.isWordChar b (List.mem_of_mem_head? hb)
  rw [tokens_append hbefore, tokens_digits_append hx.2 hw]

end Operands

section Glued

/-- A piece as a character, with a zero for every reference. -/
def Piece.zero : Piece → Char
  | char c => c
  | slot _ => '0'

@[simp] theorem Piece.zero_char
    (c : Char) :
    (Piece.char c).zero = c :=
  rfl

@[simp] theorem Piece.zero_slot
    (s : Slot) :
    (Piece.slot s).zero = '0' :=
  rfl

/-- A text with a zero for every reference. -/
def zeros (pieces : List Piece) : List Char :=
  pieces.map Piece.zero

/-- Whether a reference between these pieces is glued: it comes right after a word character or
right before a digit.  A reference counts as a digit. -/
def Glued (before after : List Piece) : Prop :=
  (∃ p ∈ before.getLast?, isWordChar p.zero = true) ∨
  (∃ p ∈ after.head?, p.zero.isDigit = true)

/-- A template can be filled if every reference in it can be read. -/
theorem exists_fill_iff
    (form : Int64 → List Char)
    (s : Scope)
    (ps : List Piece) :
    (∃ cs, fill form s ps = .ok cs) ↔ ∀ slot, .slot slot ∈ ps → ∃ v, slot.read s = .ok v := by
  induction ps with
  | nil =>
      simp [fill]
  | cons p ps ih =>
      cases p with
      | char c =>
          simp only [fill_char, map_eq_ok_iff, List.mem_cons, reduceCtorEq, false_or, ← ih]
          grind
      | slot slot =>
          simp only [fill_slot, bind_eq_ok_iff, map_eq_ok_iff, List.mem_cons, Piece.slot.injEq]
          constructor
          · rintro ⟨_, v, hread, w, hw, _⟩ slot' (rfl | hmem)
            · exact ⟨v, hread⟩
            · exact ih.mp ⟨w, hw⟩ slot' hmem
          · intro hall
            obtain ⟨v, hread⟩ := hall slot (.inl rfl)
            obtain ⟨w, hw⟩ := ih.mpr fun slot' hmem => hall slot' (.inr hmem)
            exact ⟨_, v, hread, w, hw, rfl⟩

section Neighbours

variable {s : Scope} {before after : List Piece} {w : List Char}

theorem getLast?_zeros
    (pieces : List Piece) :
    (zeros pieces).getLast? = pieces.getLast?.map Piece.zero := by
  simp [zeros, List.getLast?_map]

/-- What follows a reference starts with a digit or with a group if the reference is glued to
it. -/
theorem head_fill_of_isDigit
    {p : Piece}
    (hafter : fill operand s after = .ok w)
    (hhead : after.head? = some p)
    (hp : p.zero.isDigit = true) :
    ∃ b, w.head? = some b ∧ (b.isDigit = true ∨ b = '(') := by
  obtain ⟨after, rfl⟩ := List.head?_eq_some_iff.mp hhead
  cases p with
  | char c =>
      rw [fill_char, map_eq_ok_iff] at hafter
      obtain ⟨w, _, rfl⟩ := hafter
      exact ⟨c, rfl, .inl hp⟩
  | slot slot =>
      rw [fill_slot, bind_eq_ok_iff] at hafter
      obtain ⟨v, _, hafter⟩ := hafter
      obtain ⟨w, _, rfl⟩ := map_eq_ok_iff.mp hafter
      by_cases hv : v < 0
      · obtain ⟨inner, hinner⟩ := exists_operand_group hv
        exact ⟨'(', by rw [hinner]; rfl, .inr rfl⟩
      · have hnumeral := isNumeral_operand hv
        refine ⟨(operand v).head hnumeral.1, ?_, .inl (hnumeral.2 _ (List.head_mem hnumeral.1))⟩
        rw [List.head?_append_of_ne_nil _ hnumeral.1, List.head?_eq_some_head]

theorem head_fill_of_not_glued
    (hafter : fill operand s after = .ok w)
    (hglued : ¬ Glued before after) :
    ∀ b ∈ w.head?, b.isDigit = false := by
  have hhead : ∀ p ∈ after.head?, p.zero.isDigit = false := by
    intro p hp
    by_contra hdigit
    exact hglued (.inr ⟨p, hp, by simpa using hdigit⟩)
  cases after with
  | nil =>
      cases hafter
      simp
  | cons p after =>
      cases p with
      | char c =>
          rw [fill_char, map_eq_ok_iff] at hafter
          obtain ⟨w, _, rfl⟩ := hafter
          simpa using hhead (.char c) rfl
      | slot slot =>
          exact absurd (hhead (.slot slot) rfl) (by simp)

theorem not_isWordChar_of_not_glued
    (hglued : ¬ Glued before after) :
    ∀ p ∈ before.getLast?, isWordChar p.zero = false := by
  intro p hp
  by_contra hword
  exact hglued (.inl ⟨p, hp, by simpa using hword⟩)

theorem getLast_fill_of_not_glued
    {u : List Char}
    (hbefore : fill operand s before = .ok u)
    (hglued : ¬ Glued before after) :
    ∀ a ∈ u.getLast?, isWordChar a = false := by
  have hlast := not_isWordChar_of_not_glued hglued
  rcases List.eq_nil_or_concat before with rfl | ⟨before, p, rfl⟩
  · cases hbefore
    simp
  · rw [List.concat_eq_append] at hbefore hlast
    rw [fill_append, bind_eq_ok_iff] at hbefore
    obtain ⟨u, _, hbefore⟩ := hbefore
    obtain ⟨x, hx, rfl⟩ := map_eq_ok_iff.mp hbefore
    have hp := hlast p (by simp)
    cases p with
    | char c =>
        rw [fill_char, map_eq_ok_iff] at hx
        obtain ⟨_, hnil, rfl⟩ := hx
        cases hnil
        simpa using hp
    | slot slot =>
        rw [Piece.zero_slot] at hp
        exact absurd hp (by decide)

open Draft in
/-- A negative value is not read where it is glued. -/
theorem not_readable_of_glued
    {v : Int64}
    (hv : v < 0)
    (hafter : fill operand s after = .ok w)
    (hglued : Glued before after) :
    ¬ Readable (zeros before ++ (operand v ++ w)) := by
  obtain ⟨inner, hinner⟩ := exists_operand_group hv
  rcases hglued with ⟨p, hp, hword⟩ | ⟨p, hp, hdigit⟩
  · refine not_readable_of_touching (a := p.zero) (b := '(') ?_ (.inl hword) ?_ (.inr rfl) ?_
    · rw [getLast?_zeros, hp]
      rfl
    · rw [hinner]
      rfl
    · simp [Token.joins, isWordChar]
  · obtain ⟨b, hb, hkind⟩ := head_fill_of_isDigit hafter hp hdigit
    rw [← List.append_assoc]
    refine not_readable_of_touching (a := ')') ?_ (.inr rfl) hb hkind ?_
    · rw [hinner, ← List.cons_append, ← List.append_assoc, List.getLast?_concat]
    · simp [Token.joins, isWordChar]

open Draft in
/-- A reference can be read as a zero, unless it is glued and negative. -/
theorem readable_operand_iff
    (v : Int64)
    (hafter : fill operand s after = .ok w) :
    Readable (zeros before ++ (operand v ++ w)) ↔
      Readable (zeros before ++ '0' :: w) ∧ ¬ (Glued before after ∧ v < 0) := by
  have hzero : operand 0 = ['0'] := by decide
  by_cases hv : v < 0
  · by_cases hglued : Glued before after
    · have hnot := not_readable_of_glued hv hafter hglued
      simp [hnot, hglued, hv]
    · have hu : ∀ a ∈ (zeros before).getLast?, isWordChar a = false := by
        intro a ha
        rw [getLast?_zeros, Option.mem_map] at ha
        obtain ⟨p, hp, rfl⟩ := ha
        exact not_isWordChar_of_not_glued hglued p hp
      have hw := head_fill_of_not_glued hafter hglued
      have hdigit : IsNumeral (operand 0) := isNumeral_operand (by decide)
      have htext : '0' :: w = operand 0 ++ w := by
        rw [hzero]
        rfl
      rw [htext, readable_iff, readable_iff, tokens_operand_of_neg hv,
        tokens_numeral_between hdigit hu hw]
      simp only [hglued, false_and, not_false_eq_true, and_true]
      exact (isPrimary_operand v).accepts_exchange (isPrimary_operand 0) _ _ _
  · simp only [hv, and_false, not_false_eq_true, and_true]
    have hdigit : IsNumeral ['0'] := by decide
    exact readable_exchange_numeral (isNumeral_operand hv) hdigit (zeros before) w

end Neighbours

end Glued

section WellFormed

/-- Among these pieces, which come after others, is a glued reference with a negative value. -/
def GluedNegative (s : Scope) (before pieces : List Piece) : Prop :=
  ∃ between slot after v,
    pieces = between ++ .slot slot :: after ∧
    Glued (before ++ between) after ∧
    slot.read s = .ok v ∧
    v < 0

variable {s : Scope}

theorem not_gluedNegative_nil
    (before : List Piece) :
    ¬ GluedNegative s before [] := by
  rintro ⟨between, slot, after, v, hpieces, _⟩
  simp at hpieces

theorem gluedNegative_char_iff
    (before : List Piece)
    (c : Char)
    (ps : List Piece) :
    GluedNegative s before (.char c :: ps) ↔ GluedNegative s (before ++ [.char c]) ps := by
  constructor
  · rintro ⟨between, slot, after, v, hpieces, hrest⟩
    cases between with
    | nil =>
        simp at hpieces
    | cons p between =>
        simp only [List.cons_append, List.cons.injEq] at hpieces
        obtain ⟨rfl, rfl⟩ := hpieces
        exact ⟨between, slot, after, v, rfl, by simpa using hrest⟩
  · rintro ⟨between, slot, after, v, rfl, hrest⟩
    exact ⟨.char c :: between, slot, after, v, rfl, by simpa using hrest⟩

theorem gluedNegative_slot_iff
    (before : List Piece)
    {slot : Slot}
    {v : Int64}
    (ps : List Piece)
    (hread : slot.read s = .ok v) :
    GluedNegative s before (.slot slot :: ps) ↔
      (Glued before ps ∧ v < 0) ∨ GluedNegative s (before ++ [.slot slot]) ps := by
  constructor
  · rintro ⟨between, slot', after, v', hpieces, hglued, hread', hv'⟩
    cases between with
    | nil =>
        simp only [List.nil_append, List.cons.injEq, Piece.slot.injEq] at hpieces
        obtain ⟨rfl, rfl⟩ := hpieces
        rw [hread, Except.ok.injEq] at hread'
        subst hread'
        exact .inl ⟨by simpa using hglued, hv'⟩
    | cons p between =>
        simp only [List.cons_append, List.cons.injEq] at hpieces
        obtain ⟨rfl, rfl⟩ := hpieces
        exact .inr ⟨between, slot', after, v', rfl, by simpa using hglued, hread', hv'⟩
  · rintro (⟨hglued, hv⟩ | ⟨between, slot', after, v', rfl, hglued, hread', hv'⟩)
    · exact ⟨[], slot, ps, v, rfl, by simpa using hglued, hread, hv⟩
    · exact ⟨.slot slot :: between, slot', after, v', rfl, by simpa using hglued, hread', hv'⟩

open Draft in
/-- A filled template is read as an expression exactly if it is one with zeros, and no glued
reference is negative. -/
theorem readable_fill_iff
    {pieces : List Piece}
    {cs : List Char}
    (before : List Piece)
    (hfill : fill operand s pieces = .ok cs) :
    Readable (zeros before ++ cs) ↔
      Readable (zeros (before ++ pieces)) ∧ ¬ GluedNegative s before pieces := by
  -- The induction replaces the references by zeros from left to right.
  induction pieces generalizing before cs with
  | nil =>
      cases hfill
      simp [not_gluedNegative_nil, zeros]
  | cons p ps ih =>
      cases p with
      | char c =>
          rw [fill_char, map_eq_ok_iff] at hfill
          obtain ⟨w, hw, rfl⟩ := hfill
          have hrest := ih (before ++ [.char c]) hw
          have htext : zeros before ++ c :: w = zeros (before ++ [.char c]) ++ w := by
            simp [zeros]
          rw [gluedNegative_char_iff, htext, hrest, List.append_assoc, List.singleton_append]
      | slot slot =>
          rw [fill_slot, bind_eq_ok_iff] at hfill
          obtain ⟨v, hread, hfill⟩ := hfill
          obtain ⟨w, hw, rfl⟩ := map_eq_ok_iff.mp hfill
          have hrest := ih (before ++ [.slot slot]) hw
          have htext : zeros before ++ '0' :: w = zeros (before ++ [.slot slot]) ++ w := by
            simp [zeros]
          rw [readable_operand_iff v hw, htext, hrest, gluedNegative_slot_iff before ps hread,
            List.append_assoc, List.singleton_append, not_or, and_right_comm, and_assoc]

/-- Memory does not decide whether a reference can be read. -/
theorem exists_read_iff
    (slot : Slot)
    (mode : AddressingMode)
    (m m' : Memory) :
    (∃ v, slot.read ⟨m, mode⟩ = .ok v) ↔ ∃ v, slot.read ⟨m', mode⟩ = .ok v := by
  unfold Slot.read
  cases slot.reference with
  | error err =>
      simp
  | ok r =>
      cases r with
      | current => simp [Reference.read]
      | relative offset => simp [Reference.read]
      | named name => cases mode <;> simp [Reference.read, Scope.named]

/-- An evaluation ends in a syntax error exactly if all references of the text can be read, and the
text is no expression with zeros in their place or a glued one is negative. -/
theorem syntaxError_iff_gluedNegative
    (maxDepth : Nat)
    (text : String) :
    SyntaxError (evaluate s maxDepth text) ↔
      ∃ pieces,
        scan text.toList = .ok pieces ∧
        (∀ slot, .slot slot ∈ pieces → ∃ v, slot.read s = .ok v) ∧
        (Draft.Readable (zeros pieces) → GluedNegative s [] pieces) := by
  rw [syntaxError_evaluate_iff]
  constructor
  · rintro ⟨pieces, cs, hscan, hfill, hreadable⟩
    refine ⟨pieces, hscan, (exists_fill_iff operand s pieces).mp ⟨cs, hfill⟩, ?_⟩
    intro hzeros
    by_contra hnone
    exact hreadable ((readable_fill_iff [] hfill).mpr ⟨hzeros, hnone⟩)
  · rintro ⟨pieces, hscan, hread, hglued⟩
    obtain ⟨cs, hfill⟩ := (exists_fill_iff operand s pieces).mpr hread
    refine ⟨pieces, cs, hscan, hfill, ?_⟩
    intro hreadable
    obtain ⟨hzeros, hnone⟩ := (readable_fill_iff [] hfill).mp hreadable
    exact hnone (hglued hzeros)

/-- Two memories give every glued reference the same sign. -/
def SameSigns (mode : AddressingMode) (m m' : Memory) (pieces : List Piece) : Prop :=
  ∀ before slot after v v',
    pieces = before ++ .slot slot :: after →
    Glued before after →
    slot.read ⟨m, mode⟩ = .ok v →
    slot.read ⟨m', mode⟩ = .ok v' →
    (v < 0 ↔ v' < 0)

theorem SameSigns.symm
    {mode : AddressingMode}
    {m m' : Memory}
    {pieces : List Piece}
    (h : SameSigns mode m m' pieces) :
    SameSigns mode m' m pieces := by
  intro before slot after v v' hpieces hglued hread hread'
  exact (h before slot after v' v hpieces hglued hread' hread).symm

theorem SameSigns.gluedNegative
    {mode : AddressingMode}
    {m m' : Memory}
    {pieces : List Piece}
    (h : SameSigns mode m m' pieces)
    (hglued : GluedNegative ⟨m, mode⟩ [] pieces) :
    GluedNegative ⟨m', mode⟩ [] pieces := by
  obtain ⟨between, slot, after, v, hpieces, hglued, hread, hv⟩ := hglued
  obtain ⟨v', hread'⟩ := (exists_read_iff slot mode m m').mp ⟨v, hread⟩
  have hsign := h between slot after v v' hpieces hglued hread hread'
  exact ⟨between, slot, after, v', hpieces, hglued, hread', hsign.mp hv⟩

theorem SameSigns.syntaxError
    {mode : AddressingMode}
    {m m' : Memory}
    {maxDepth : Nat}
    {text : String}
    (h : ∀ pieces, scan text.toList = .ok pieces → SameSigns mode m m' pieces)
    (herror : SyntaxError (evaluate ⟨m, mode⟩ maxDepth text)) :
    SyntaxError (evaluate ⟨m', mode⟩ maxDepth text) := by
  rw [syntaxError_iff_gluedNegative] at herror ⊢
  obtain ⟨pieces, hscan, hread, hglued⟩ := herror
  refine ⟨pieces, hscan, ?_, fun hzeros => (h pieces hscan).gluedNegative (hglued hzeros)⟩
  intro slot hmem
  exact (exists_read_iff slot mode m m').mp (hread slot hmem)

open Token in
/-- The tokens of a value stand between those of its neighbours, if the reference is not glued or
the value is negative. -/
theorem tokens_fill
    {before after : List Piece}
    {u w : List Char}
    {v : Int64}
    (hbefore : fill operand s before = .ok u)
    (hafter : fill operand s after = .ok w)
    (hfree : Glued before after → v < 0) :
    tokens (u ++ (operand v ++ w)) = tokens u ++ (tokens (operand v) ++ tokens w) := by
  by_cases hv : v < 0
  · exact tokens_operand_of_neg hv u w
  · have hglued : ¬ Glued before after := fun hglued => hv (hfree hglued)
    apply tokens_numeral_between (isNumeral_operand hv) _ (head_fill_of_not_glued hafter hglued)
    exact getLast_fill_of_not_glued hbefore hglued

/-- Memory decides whether a text is an expression through the signs of glued references alone.

* Two memories that give every glued reference the same sign agree on whether there is a syntax
  error; so any two memories do if no reference is glued.
* There is one exactly if all references can be read, and the text is no expression with zeros in
  their place or a glued reference is negative.
* A value forms no token with its neighbours if the reference is not glued or the value is
  negative. -/
theorem syntaxError_depends_on_glued_signs
    (mode : AddressingMode)
    (maxDepth : Nat)
    (text : String) :
    (∀ m m' : Memory,
      (∀ pieces, scan text.toList = .ok pieces → SameSigns mode m m' pieces) →
      (SyntaxError (evaluate ⟨m, mode⟩ maxDepth text) ↔
        SyntaxError (evaluate ⟨m', mode⟩ maxDepth text))) ∧
    (∀ m : Memory,
      SyntaxError (evaluate ⟨m, mode⟩ maxDepth text) ↔
        ∃ pieces,
          scan text.toList = .ok pieces ∧
          (∀ slot, .slot slot ∈ pieces → ∃ v, slot.read ⟨m, mode⟩ = .ok v) ∧
          (Draft.Readable (zeros pieces) →
            ∃ before slot after v,
              pieces = before ++ .slot slot :: after ∧
              Glued before after ∧
              slot.read ⟨m, mode⟩ = .ok v ∧
              v < 0)) ∧
    (∀ (m : Memory) (before after : List Piece) (slot : Slot) (v : Int64) (cs : List Char),
      slot.read ⟨m, mode⟩ = .ok v →
      fill operand ⟨m, mode⟩ (before ++ .slot slot :: after) = .ok cs →
      (Glued before after → v < 0) →
      ∃ u w,
        fill operand ⟨m, mode⟩ before = .ok u ∧
        fill operand ⟨m, mode⟩ after = .ok w ∧
        cs = u ++ (operand v ++ w) ∧
        Token.tokens cs =
          Token.tokens u ++ (Token.tokens (operand v) ++ Token.tokens w)) := by
  refine ⟨?_, ?_, ?_⟩
  · intro m m' hsigns
    constructor
    · exact SameSigns.syntaxError hsigns
    · exact SameSigns.syntaxError fun pieces hscan => (hsigns pieces hscan).symm
  · intro m
    rw [syntaxError_iff_gluedNegative]
    simp only [GluedNegative, List.nil_append]
  · intro m before after slot v cs hread hfill hfree
    rw [fill_append, bind_eq_ok_iff] at hfill
    obtain ⟨u, hbefore, hfill⟩ := hfill
    obtain ⟨x, hx, rfl⟩ := map_eq_ok_iff.mp hfill
    rw [fill_slot, bind_eq_ok_iff] at hx
    obtain ⟨v', hread', hx⟩ := hx
    obtain ⟨w, hafter, rfl⟩ := map_eq_ok_iff.mp hx
    rw [hread, Except.ok.injEq] at hread'
    subst hread'
    exact ⟨u, w, hbefore, hafter, rfl, tokens_fill hbefore hafter hfree⟩

/-- A numeral right before a reference. -/
def numeralBeforeCell : String :=
  "1\x7b\x7d"

theorem numeralBeforeCell_same_sign :
    (∀ pieces,
      scan numeralBeforeCell.toList = .ok pieces →
      SameSigns .tape (Memory.empty.set 0 5) (Memory.empty.set 0 7) pieces) ∧
    (SyntaxError (evaluate ⟨Memory.empty.set 0 5, .tape⟩ 256 numeralBeforeCell) ↔
      SyntaxError (evaluate ⟨Memory.empty.set 0 7, .tape⟩ 256 numeralBeforeCell)) := by
  have hscan : scan numeralBeforeCell.toList = .ok [.char '1', .slot .empty] := by
    decide +kernel
  have hsigns :
      ∀ pieces,
        scan numeralBeforeCell.toList = .ok pieces →
        SameSigns .tape (Memory.empty.set 0 5) (Memory.empty.set 0 7) pieces := by
    intro pieces hpieces
    rw [hscan, Except.ok.injEq] at hpieces
    subst hpieces
    intro before slot after v v' hpieces _ hread hread'
    have hslot : slot = .empty := by
      have hmem : Piece.slot slot ∈ [Piece.char '1', .slot .empty] := by
        rw [hpieces]
        simp
      simpa using hmem
    subst hslot
    cases hread
    cases hread'
    decide
  exact ⟨hsigns, (syntaxError_depends_on_glued_signs .tape 256 numeralBeforeCell).1 _ _ hsigns⟩

/-- The value of a cell can decide whether a text is an expression: the cell continues the numeral
if it holds five, and cannot follow it if it holds minus five. -/
theorem numeralBeforeCell_depends_on_memory :
    evaluate ⟨Memory.empty.set 0 5, .tape⟩ 256 numeralBeforeCell = .ok (.int 15) ∧
    ¬ (SyntaxError (evaluate ⟨Memory.empty.set 0 5, .tape⟩ 256 numeralBeforeCell) ↔
      SyntaxError (evaluate ⟨Memory.empty.set 0 (-5), .tape⟩ 256 numeralBeforeCell)) := by
  have hfive :
      evaluate ⟨Memory.empty.set 0 5, .tape⟩ 256 numeralBeforeCell = .ok (.int 15) := by
    decide +kernel
  have hminus :
      evaluate ⟨Memory.empty.set 0 (-5), .tape⟩ 256 numeralBeforeCell =
        .error (.invalidExpression "1(-5)" 1 (.endOfText :: Expectation.operators)) := by
    decide +kernel
  refine ⟨hfive, fun hiff => ?_⟩
  obtain ⟨_, _, _, hok⟩ := hiff.mpr ⟨_, _, _, hminus⟩
  rw [hfive] at hok
  cases hok

end WellFormed

end Template
end GraphMachine
