import GraphMachine.Proofs.Reference.Layout

/-!
# What replacing references gives

The answer of a replacement is described without the scanner.  A text has a stray brace, which is
reported, or it has a layout; then the answer is the fault of the leftmost faulty reference, or the
text with printed values in the places of the references.  The result has no open brace, so
replacing again changes nothing.

In output a value is printed in decimal.  In an expression there are three cases: a value that is
not negative is printed in decimal, a negative one in parentheses, and the smallest word as a
difference in parentheses.
-/

namespace GraphMachine

open Text

namespace Template

/-- A reference cannot be read in a mode: its offset is no word, or it is a name where names may not
be used. -/
def Written.Faulty (mode : AddressingMode) (r : Written) : Prop :=
  ∃ err, r.slot.Fault mode err

/-- A word in decimal. -/
inductive Plainly : Int64 → List Char → Prop
  | nonnegative
      {v : Int64}
      {n : Nat}
      (hv : v.toInt = n) :
      Plainly v (Nat.toDigits 10 n)
  | negative
      {v : Int64}
      {n : Nat}
      (hv : v.toInt = -n)
      (hn : 0 < n) :
      Plainly v ('-' :: Nat.toDigits 10 n)

/-- A word as an operand of an expression. -/
inductive AsOperand : Int64 → List Char → Prop
  | nonnegative
      {v : Int64}
      {w : List Char}
      (hv : 0 ≤ v.toInt)
      (hw : Plainly v w) :
      AsOperand v w
  | negative
      {v : Int64}
      {w : List Char}
      (hv : v.toInt < 0)
      (hmin : v ≠ Int64.minValue)
      (hw : Plainly v w) :
      AsOperand v ('(' :: (w ++ [')']))
  | smallest :
      AsOperand Int64.minValue "(-9223372036854775807 - 1)".toList

/-- The answer is what replacing the references of a text by printed values gives.

* It is the error for malformed references exactly if some open brace begins no reference, and the
  first such brace decides the span.
* Otherwise the text has one layout.  The answer is the error of the leftmost faulty reference, and
  if there is none, the text with the values of the cells in the places of the references.
* Nothing is left to be replaced in a result. -/
structure Replacement (Prints : Int64 → List Char → Prop) (s : Scope) (text : String)
    (answer : Except EvalError String) : Prop where
  malformed_iff :
    (∃ input span, answer = .error (.malformedReference input span)) ↔
      ∃ before after, text.toList = before ++ '\x7b' :: after ∧ ¬ BeginsReference after
  span_eq :
    ∀ input span,
      answer = .error (.malformedReference input span) →
      ∃ before after,
        FirstStray text.toList before after ∧
        input = text ∧
        span = ⟨Slot.reportedAt (byteLength before) after, byteLength text.toList⟩
  layout_unique :
    WellBraced text.toList → ∃! l : Layout, l.text = text.toList
  leftmost_fault :
    ∀ (l : Layout) rs r rs' err,
      l.text = text.toList →
      l.references = rs ++ r :: rs' →
      (∀ r' ∈ rs, ¬ r'.Faulty s.mode) →
      r.slot.Fault s.mode err →
      answer = .error err
  filled :
    ∀ l : Layout,
      l.text = text.toList →
      (∀ r ∈ l.references, ¬ r.Faulty s.mode) →
      ∃ printed : Written → List Char,
        (∀ r ∈ l.references, ∃ v, r.slot.Holds s v ∧ Prints v (printed r)) ∧
        answer = .ok (String.ofList (l.replaced printed))
  settled :
    ∀ result,
      answer = .ok result →
      '\x7b' ∉ result.toList ∧
      ∀ s' : Scope, resolve s' result = .ok result ∧ render s' result = .ok result

section Values

theorem plainly_plain
    (v : Int64) :
    Plainly v (plain v) := by
  by_cases hv : 0 ≤ v.toInt
  · obtain ⟨n, hn⟩ := Int.eq_ofNat_of_zero_le hv
    rw [plain, Decimal.toList_ofWord hn]
    exact .nonnegative hn
  · obtain ⟨n, hn⟩ : ∃ n : Nat, v.toInt = -n := ⟨v.toInt.natAbs, by omega⟩
    rw [plain, Decimal.toList_ofWord_neg hn (by omega)]
    exact .negative hn (by omega)

theorem asOperand_operand
    (v : Int64) :
    AsOperand v (operand v) := by
  unfold operand
  split
  · next hmin =>
      subst hmin
      exact .smallest
  · next hmin =>
      split
      · next hneg => exact .negative ((Decimal.lt_zero_iff v).mp hneg) hmin (plainly_plain v)
      · next hneg =>
          rw [Decimal.lt_zero_iff] at hneg
          exact .nonnegative (by omega) (plainly_plain v)

theorem brace_notMem_plain
    (v : Int64) :
    '\x7b' ∉ plain v :=
  Decimal.notMem_ofWord (by decide) (by decide) v

theorem brace_notMem_operand
    (v : Int64) :
    '\x7b' ∉ operand v := by
  have hplain := brace_notMem_plain
  unfold operand
  split
  · simp [hplain]
  · split
    · simp [hplain]
    · exact hplain v

end Values

section Answers

variable {form : Int64 → List Char}
variable {s : Scope}

/-- A reference that is not faulty is read. -/
theorem Written.exists_read
    {r : Written}
    (h : ¬ r.Faulty s.mode) :
    ∃ v, r.slot.read s = .ok v ∧ r.slot.Holds s v := by
  rcases Slot.read_cases s r.slot with hread | ⟨err, _, hfault⟩
  · exact hread
  · exact absurd ⟨err, hfault⟩ h

theorem exists_filled
    (form : Int64 → List Char)
    {l : Layout}
    (hfaulty : ∀ r ∈ l.references, ¬ r.Faulty s.mode) :
    ∃ value : Written → Int64,
      (∀ r ∈ l.references, r.slot.Holds s (value r)) ∧
      fill form s l.pieces = .ok (l.replaced fun r => form (value r)) := by
  have hread : ∀ r, ∃ v, r ∈ l.references → r.slot.read s = .ok v ∧ r.slot.Holds s v := by
    intro r
    by_cases hr : r ∈ l.references
    · obtain ⟨v, hv⟩ := Written.exists_read (hfaulty r hr)
      exact ⟨v, fun _ => hv⟩
    · exact ⟨0, fun h => absurd h hr⟩
  choose value hvalue using hread
  exact ⟨value, fun r hr => (hvalue r hr).2, fill_layout_of_reads value fun r hr => (hvalue r hr).1⟩

/-- The references of a layout are all read, or there is a leftmost faulty one. -/
theorem exists_leftmost_fault
    (mode : AddressingMode)
    (rs : List Written) :
    (∀ r ∈ rs, ¬ r.Faulty mode) ∨
    ∃ before r after err,
      rs = before ++ r :: after ∧ (∀ r' ∈ before, ¬ r'.Faulty mode) ∧ r.slot.Fault mode err := by
  induction rs with
  | nil =>
      exact .inl (by simp)
  | cons r rs ih =>
      by_cases hr : r.Faulty mode
      · obtain ⟨err, hfault⟩ := hr
        exact .inr ⟨[], r, rs, err, rfl, by simp, hfault⟩
      · rcases ih with hall | ⟨before, r', after, err, rfl, hbefore, hfault⟩
        · exact .inl (List.forall_mem_cons.mpr ⟨hr, hall⟩)
        · exact .inr ⟨r :: before, r', after, err, rfl,
            List.forall_mem_cons.mpr ⟨hr, hbefore⟩, hfault⟩

theorem substitute_of_fault
    {text : String}
    {l : Layout}
    {rs rs' : List Written}
    {r : Written}
    {err : EvalError}
    (htext : l.text = text.toList)
    (hreferences : l.references = rs ++ r :: rs')
    (hfaulty : ∀ r' ∈ rs, ¬ r'.Faulty s.mode)
    (hfault : r.slot.Fault s.mode err) :
    substitute form s text = .error err := by
  have hread : ∀ r' ∈ rs, ∃ v, r'.slot.read s = .ok v := by
    intro r' hr'
    obtain ⟨v, hv, _⟩ := Written.exists_read (hfaulty r' hr')
    exact ⟨v, hv⟩
  have herror := Slot.read_eq_error_iff.mpr hfault
  rw [substitute_layout htext, fill_layout_of_error hreferences hread herror]
  rfl

theorem substitute_of_filled
    (form : Int64 → List Char)
    {text : String}
    {l : Layout}
    (htext : l.text = text.toList)
    (hfaulty : ∀ r ∈ l.references, ¬ r.Faulty s.mode) :
    ∃ value : Written → Int64,
      (∀ r ∈ l.references, r.slot.Holds s (value r)) ∧
      substitute form s text = .ok (String.ofList (l.replaced fun r => form (value r))) := by
  obtain ⟨value, hvalue, hfill⟩ := exists_filled form hfaulty
  refine ⟨value, hvalue, ?_⟩
  rw [substitute_layout htext, hfill]
  rfl

/-- A text is filled with values, one of its references has a fault, or it has a stray brace. -/
theorem substitute_cases
    (form : Int64 → List Char)
    (s : Scope)
    (text : String) :
    (∃ (l : Layout) (value : Written → Int64),
      l.text = text.toList ∧
      substitute form s text = .ok (String.ofList (l.replaced fun r => form (value r)))) ∨
    (∃ (r : Written) (err : EvalError),
      r.slot.Fault s.mode err ∧
      substitute form s text = .error err) ∨
    (∃ before after, FirstStray text.toList before after) := by
  rcases Layout.exists_layout text.toList with ⟨l, hl⟩ | ⟨l, after, hfirst⟩
  · rcases exists_leftmost_fault s.mode l.references with
      hnone | ⟨rs, r, rs', err, hrs, hfaulty, hfault⟩
    · obtain ⟨value, _, hfilled⟩ := substitute_of_filled form hl hnone
      exact .inl ⟨l, value, hl, hfilled⟩
    · exact .inr (.inl ⟨r, err, hfault, substitute_of_fault hl hrs hfaulty hfault⟩)
  · exact .inr (.inr ⟨l.text, after, hfirst⟩)

/-- A text that is filled has no characters but those of the template and of values. -/
theorem mem_of_substitute
    {text result : String}
    {c : Char}
    (h : substitute form s text = .ok result)
    (hc : c ∈ result.toList) :
    c ∈ text.toList ∨ ∃ v, c ∈ form v := by
  rcases substitute_cases form s text with
    ⟨l, value, hl, hfilled⟩ | ⟨r, err, _, herror⟩ | ⟨before, after, hfirst⟩
  · rw [hfilled] at h
    cases h
    rw [String.toList_ofList] at hc
    rcases Layout.mem_replaced hc with htext | ⟨r, hform⟩
    · exact .inl (hl ▸ htext)
    · exact .inr ⟨value r, hform⟩
  · rw [herror] at h
    cases h
  · rw [substitute_stray hfirst] at h
    cases h

theorem firstStray_of_malformed
    {text input : String}
    {span : Span}
    (hanswer : substitute form s text = .error (.malformedReference input span)) :
    ∃ before after,
      FirstStray text.toList before after ∧
      input = text ∧
      span = ⟨Slot.reportedAt (byteLength before) after, byteLength text.toList⟩ := by
  rcases substitute_cases form s text with
    ⟨l, value, -, hfilled⟩ | ⟨r, err, hfault, herror⟩ | ⟨before, after, hfirst⟩
  · rw [hfilled] at hanswer
    cases hanswer
  · rw [herror, Except.error.injEq] at hanswer
    exact absurd hanswer (hfault.ne_malformedReference input span)
  · rw [substitute_stray hfirst] at hanswer
    cases hanswer
    exact ⟨before, after, hfirst, rfl, rfl⟩

/-- Replacing the references of a text by values that are printed without an open brace. -/
theorem replacement_substitute
    {Prints : Int64 → List Char → Prop}
    (hprints : ∀ v, Prints v (form v))
    (hform : ∀ v, '\x7b' ∉ form v)
    (s : Scope)
    (text : String) :
    Replacement Prints s text (substitute form s text) where
  malformed_iff := by
    constructor
    · rintro ⟨input, span, hanswer⟩
      obtain ⟨before, after, hfirst, _⟩ := firstStray_of_malformed hanswer
      exact ⟨before, after, hfirst.text_eq, hfirst.stray⟩
    · rintro ⟨before, after, htext, hstray⟩
      rcases Layout.exists_layout text.toList with ⟨l, hl⟩ | ⟨l, after', hfirst⟩
      · exact absurd (l.wellBraced_text before after (hl.trans htext)) hstray
      · exact ⟨_, _, substitute_stray hfirst⟩
  span_eq _ _ hanswer := firstStray_of_malformed hanswer
  layout_unique := existsUnique_layout
  leftmost_fault _ _ _ _ _ := substitute_of_fault
  filled l htext hfaulty := by
    obtain ⟨value, hvalue, hanswer⟩ := substitute_of_filled form htext hfaulty
    exact ⟨_, fun r hr => ⟨value r, hvalue r hr, hprints (value r)⟩, hanswer⟩
  settled result hanswer := by
    have hresult : '\x7b' ∉ result.toList := by
      rcases substitute_cases form s text with
        ⟨l, value, -, hfilled⟩ | ⟨r, err, _, herror⟩ | ⟨before, after, hfirst⟩
      · rw [hfilled] at hanswer
        cases hanswer
        rw [String.toList_ofList]
        exact Layout.notMem_replaced (fun r => hform (value r)) l
      · rw [herror] at hanswer
        cases hanswer
      · rw [substitute_stray hfirst] at hanswer
        cases hanswer
    exact ⟨hresult, fun s' => ⟨substitute_of_notMem hresult, substitute_of_notMem hresult⟩⟩

/-- References are replaced exactly, in expressions and in output. -/
theorem resolve_and_render_replace
    (s : Scope)
    (text : String) :
    Replacement AsOperand s text (resolve s text) ∧
    Replacement Plainly s text (render s text) := by
  exact ⟨replacement_substitute asOperand_operand brace_notMem_operand s text,
    replacement_substitute plainly_plain brace_notMem_plain s text⟩

end Answers

/-- The cell before the current one holds the smallest word. -/
def smallestBefore : Scope :=
  ⟨Memory.empty.set (-1) Int64.minValue, .tape⟩

/-- An accented letter, the cell before the current one, and a closing brace. -/
def accentedCell : Layout :=
  .more ⟨['é'], by decide⟩
    ⟨['\x7b', ' ', '-', '1', '\x7d'], .offset ['-', '1'],
      .braces (a := [' ']) (b := []) (by decide)
        (.offset (.signed (w := ['1']) (.inr rfl) (by decide))) (by decide)⟩
    (.last ⟨['\x7d'], by decide⟩)

/-- The smallest word is printed in the place of its cell, and a brace that begins no reference is
reported behind the blank after it.  The accented letter before it has two bytes. -/
theorem accentedCell_replaced :
    (accentedCell.text = "é\x7b -1\x7d\x7d".toList ∧
      (∀ r ∈ accentedCell.references, ¬ r.Faulty smallestBefore.mode) ∧
      (∃ printed : Written → List Char,
        (∀ r ∈ accentedCell.references,
          ∃ v, r.slot.Holds smallestBefore v ∧ Plainly v (printed r)) ∧
        render smallestBefore "é\x7b -1\x7d\x7d" =
          .ok (String.ofList (accentedCell.replaced printed))) ∧
      render smallestBefore "é\x7b -1\x7d\x7d" = .ok "é-9223372036854775808\x7d" ∧
      resolve smallestBefore "é\x7b -1\x7d\x7d" = .ok "é(-9223372036854775807 - 1)\x7d") ∧
    (¬ BeginsReference [' ', 'x', '-', '\x7d'] ∧
      (∃ input span,
        resolve smallestBefore "é\x7b x-\x7d" = .error (.malformedReference input span)) ∧
      resolve smallestBefore "é\x7b x-\x7d" =
        .error (.malformedReference "é\x7b x-\x7d" ⟨4, 7⟩)) := by
  have htext : accentedCell.text = "é\x7b -1\x7d\x7d".toList := by decide
  have hfaulty : ∀ r ∈ accentedCell.references, ¬ r.Faulty smallestBefore.mode := by
    intro r hr
    simp only [accentedCell, Layout.references, List.mem_singleton] at hr
    subst hr
    rintro ⟨err, hfault⟩
    cases hfault with
    | offset hliteral => exact hliteral (by decide)
  have hstray : ¬ BeginsReference [' ', 'x', '-', '\x7d'] := by decide
  obtain ⟨_, hrender⟩ := resolve_and_render_replace smallestBefore "é\x7b -1\x7d\x7d"
  obtain ⟨hresolve, _⟩ := resolve_and_render_replace smallestBefore "é\x7b x-\x7d"
  exact
    ⟨⟨htext, hfaulty, hrender.filled accentedCell htext hfaulty, by decide +kernel,
        by decide +kernel⟩,
      hstray, hresolve.malformed_iff.mpr ⟨['é'], _, by decide, hstray⟩, by decide +kernel⟩

end Template
end GraphMachine
