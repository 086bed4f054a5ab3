import GraphMachine.Proofs.Reference.Spelling
import GraphMachine.Proofs.Text.Splitting

/-!
# References in braces

What stands between the braces of a reference is said by `Slot.Spells`, and `Slot.Braced` adds the
blanks and the braces.  Behind an open brace exactly the references that are written so are found.

A reference is read if it has no fault: its offset is a word, and it is no name where names may not
be used.
-/

namespace GraphMachine

open Text

namespace Text

/-- Digits after an optional sign. -/
inductive IsOffset : List Char → Prop
  | unsigned
      {w : List Char}
      (hw : IsNumeral w) :
      IsOffset w
  | signed
      {sign : Char}
      {w : List Char}
      (hsign : sign = '+' ∨ sign = '-')
      (hw : IsNumeral w) :
      IsOffset (sign :: w)

/-- After the blanks at its start the text goes on with an offset. -/
def BeginsOffset (cs : List Char) : Prop :=
  ∃ a w rest, Blanks a ∧ IsOffset w ∧ cs = a ++ (w ++ rest)

theorem isIdentifier_iff_isWord
    (w : List Char) :
    IsIdentifier w ↔ IsWord isWordStart w := by
  cases w with
  | nil => rfl
  | cons c w => rfl

theorem eq_append_of_identifier?
    {cs w rest : List Char}
    (h : identifier? cs = some (w, rest)) :
    IsIdentifier w ∧ cs = w ++ rest := by
  obtain ⟨hw, -, htext⟩ := word?_eq_some_iff.mp h
  exact ⟨(isIdentifier_iff_isWord w).mpr hw, htext⟩

end Text

namespace Slot

/-- How the inside of a reference is written, apart from blanks. -/
inductive Spells : List Char → Slot → Prop
  | empty :
      Spells [] .empty
  | offset
      {w : List Char}
      (hw : IsOffset w) :
      Spells w (.offset w)
  | name
      {w : List Char}
      (hw : IsIdentifier w) :
      Spells w (.name w)

/-- How a reference is written: in braces, with blanks around its inside. -/
inductive Braced : List Char → Slot → Prop
  | braces
      {a w b : List Char}
      {slot : Slot}
      (ha : Blanks a)
      (hw : Spells w slot)
      (hb : Blanks b) :
      Braced ('\x7b' :: (a ++ w ++ b ++ ['\x7d'])) slot

/-- Apart from signs, only word characters stand inside a reference. -/
theorem Spells.notMem
    {w : List Char}
    {slot : Slot}
    (hw : Spells w slot)
    {c : Char}
    (hword : isWordChar c = false)
    (hplus : c ≠ '+')
    (hminus : c ≠ '-') :
    c ∉ w := by
  have hwords {ds : List Char} (hds : ∀ d ∈ ds, isWordChar d = true) : c ∉ ds := by
    intro hmem
    rw [hds c hmem] at hword
    cases hword
  cases hw with
  | empty => exact List.not_mem_nil
  | offset hw =>
      cases hw with
      | unsigned hw => exact hwords hw.isWordChar
      | signed hsign hw =>
          rw [List.mem_cons, not_or]
          refine ⟨?_, hwords hw.isWordChar⟩
          rcases hsign with rfl | rfl
          · exact hplus
          · exact hminus
  | name hw => exact hwords hw.isWordChar

section Scanning

variable {cs w rest : List Char}
variable {slot : Slot}

theorem close?_eq_some_iff :
    close? cs = some rest ↔ ∃ b, Blanks b ∧ cs = b ++ '\x7d' :: rest := by
  constructor
  · intro h
    unfold close? at h
    split at h
    · next after hskip =>
        cases h
        obtain ⟨b, hb, heq, _⟩ := skips_iff.mpr hskip
        exact ⟨b, hb, heq⟩
    · cases h
  · rintro ⟨b, hb, rfl⟩
    exact close?_blanks hb rest

theorem eq_append_of_digits?
    (h : digits? cs = some (w, rest)) :
    IsNumeral w ∧ cs = w ++ rest := by
  unfold digits? at h
  split at h
  · cases h
  · next d ds htake =>
      simp only [Option.some.injEq, Prod.mk.injEq] at h
      obtain ⟨rfl, rfl⟩ := h
      rw [← htake]
      refine ⟨⟨?_, fun c hc => List.mem_takeWhile_imp hc⟩,
        List.takeWhile_append_dropWhile.symm⟩
      rw [htake]
      exact List.cons_ne_nil d ds

theorem eq_append_of_offset?
    (h : offset? cs = some (w, rest)) :
    IsOffset w ∧ cs = w ++ rest := by
  cases cs with
  | nil =>
      cases h
  | cons c cs =>
      simp only [offset?] at h
      split at h
      · next hsign =>
          rw [Option.map_eq_some_iff] at h
          obtain ⟨⟨ds, rest'⟩, hdigits, heq⟩ := h
          cases heq
          obtain ⟨hds, rfl⟩ := eq_append_of_digits? hdigits
          exact ⟨.signed hsign hds, rfl⟩
      · obtain ⟨hw, heq⟩ := eq_append_of_digits? h
        exact ⟨.unsigned hw, heq⟩

/-- An offset is found wherever the text goes on with one. -/
theorem isSome_offset?
    (hw : IsOffset w)
    (rest : List Char) :
    (offset? (w ++ rest)).isSome = true := by
  have hdigits {ds : List Char} (hds : IsNumeral ds) : (digits? (ds ++ rest)).isSome = true := by
    cases ds with
    | nil => exact absurd rfl hds.1
    | cons d ds =>
        have hd : d.isDigit = true := hds.2 d (by simp)
        simp [digits?, hd]
  cases hw with
  | unsigned hw =>
      cases w with
      | nil => exact absurd rfl hw.1
      | cons c w =>
          have hsign : ¬ (c = '+' ∨ c = '-') := by
            have hc : c.isDigit = true := hw.2 c (by simp)
            rintro (rfl | rfl)
            · exact absurd hc (by decide)
            · exact absurd hc (by decide)
          simpa [offset?, hsign] using hdigits hw
  | signed hsign hw =>
      simpa [offset?, hsign] using hdigits hw

/-- The first character of an offset is no blank. -/
theorem head_isOffset
    (hw : IsOffset w)
    (rest : List Char) :
    ∃ c cs, w ++ rest = c :: cs ∧ isBlank c = false := by
  cases hw with
  | unsigned hw =>
      cases w with
      | nil => exact absurd rfl hw.1
      | cons c w => exact ⟨c, w ++ rest, rfl, isBlank_of_isWordChar (hw.isWordChar c (by simp))⟩
  | @signed sign w hsign hw =>
      refine ⟨sign, w ++ rest, rfl, ?_⟩
      rcases hsign with rfl | rfl
      · decide
      · decide

theorem beginsOffset_iff
    (cs : List Char) :
    BeginsOffset cs ↔ (offset? (skipBlanks cs)).isSome = true := by
  constructor
  · rintro ⟨a, w, rest, ha, hw, rfl⟩
    obtain ⟨c, cs, heq, hc⟩ := head_isOffset hw rest
    have hskip : skipBlanks (a ++ (w ++ rest)) = w ++ rest := by
      rw [heq]
      exact skipBlanks_append_cons ha hc cs
    rw [hskip]
    exact isSome_offset? hw rest
  · intro h
    obtain ⟨⟨w, rest⟩, hoffset⟩ := Option.isSome_iff_exists.mp h
    obtain ⟨hw, hinner⟩ := eq_append_of_offset? hoffset
    obtain ⟨a, ha, heq, _⟩ := skips_iff.mpr hinner
    exact ⟨a, w, rest, ha, hw, heq⟩

instance (cs : List Char) : Decidable (BeginsOffset cs) :=
  decidable_of_iff _ (beginsOffset_iff cs).symm

/-- The inside of a reference is read, whatever follows the closing brace. -/
theorem scan?_spelled
    {a b : List Char}
    (ha : Blanks a)
    (hw : Spells w slot)
    (hb : Blanks b)
    (rest : List Char) :
    scan? (a ++ (w ++ (b ++ '\x7d' :: rest))) = some (slot, rest) := by
  cases hw with
  | empty => exact scan?_empty ha hb rest
  | offset hw =>
      cases hw with
      | unsigned hw => exact scan?_numeral ha hw hb rest
      | signed hsign hw => exact scan?_signed hsign ha hw hb rest
  | name hw => exact scan?_identifier ha hw hb rest

theorem reference_offset_eq_ok_iff
    {r : Reference} :
    (Slot.offset w).reference = .ok r ↔
      ∃ distance : Int64, r = .relative distance ∧ distance.toInt = Decimal.signedValue w := by
  simp only [reference]
  cases hw : Decimal.signed? w with
  | some v =>
      have hv := Decimal.signed?_eq_some_iff.mp hw
      constructor
      · intro h
        cases h
        exact ⟨v, rfl, hv⟩
      · rintro ⟨distance, rfl, hdistance⟩
        rw [Int64.toInt_inj.mp (hdistance.trans hv.symm)]
  | none =>
      constructor
      · intro h
        cases h
      · rintro ⟨distance, _, hdistance⟩
        rw [Decimal.signed?_eq_some_iff.mpr hdistance] at hw
        cases hw

/-- A reference is spelled like the slots that stand for it. -/
theorem spells_reference_iff
    {r : Reference} :
    Reference.Spells w r ↔ ∃ slot : Slot, Spells w slot ∧ slot.reference = .ok r := by
  constructor
  · intro hw
    cases hw with
    | current =>
        exact ⟨.empty, .empty, rfl⟩
    | unsigned hw hoffset =>
        rw [← Decimal.signedValue_of_isNumeral hw] at hoffset
        exact ⟨.offset w, .offset (.unsigned hw), reference_offset_eq_ok_iff.mpr ⟨_, rfl, hoffset⟩⟩
    | plus hw hoffset =>
        exact ⟨_, .offset (.signed (.inl rfl) hw), reference_offset_eq_ok_iff.mpr ⟨_, rfl, hoffset⟩⟩
    | minus hw hoffset =>
        exact ⟨_, .offset (.signed (.inr rfl) hw), reference_offset_eq_ok_iff.mpr ⟨_, rfl, hoffset⟩⟩
    | named hw =>
        exact ⟨.name w, .name hw, rfl⟩
  · rintro ⟨slot, hw, hslot⟩
    cases hw with
    | empty =>
        cases hslot
        exact .current
    | offset hw =>
        obtain ⟨distance, rfl, hdistance⟩ := reference_offset_eq_ok_iff.mp hslot
        cases hw with
        | unsigned hw =>
            rw [Decimal.signedValue_of_isNumeral hw] at hdistance
            exact .unsigned hw hdistance
        | signed hsign hw =>
            rcases hsign with rfl | rfl
            · exact .plus hw hdistance
            · exact .minus hw hdistance
    | name hw =>
        cases hslot
        exact .named hw

/-- The position at which a brace that begins no reference is reported: its own if an offset
follows, and else the one behind the blanks after it. -/
def reportedAt (brace : Nat) (after : List Char) : Nat :=
  if BeginsOffset after then brace else brace + 1 + (after.takeWhile isBlank).length

theorem le_reportedAt
    (brace : Nat)
    (after : List Char) :
    brace ≤ reportedAt brace after := by
  unfold reportedAt
  split
  · exact Nat.le_refl brace
  · omega

/-- What is found at the start of a text is spelled there. -/
theorem exists_spells_content
    (cs : List Char) :
    ∃ w, Spells w (content cs).1 ∧ cs = w ++ (content cs).2 := by
  cases hoffset : offset? cs with
  | some found =>
      obtain ⟨hw, heq⟩ := eq_append_of_offset? hoffset
      rw [content_of_offset hoffset]
      exact ⟨_, .offset hw, heq⟩
  | none =>
      cases hname : identifier? cs with
      | some found =>
          obtain ⟨hw, heq⟩ := eq_append_of_identifier? hname
          rw [content_of_name hoffset hname]
          exact ⟨_, .name hw, heq⟩
      | none =>
          rw [content_of_none hoffset hname]
          exact ⟨[], .empty, rfl⟩

/-- Behind an open brace exactly the references in braces are found. -/
theorem scan?_eq_some_iff :
    scan? cs = some (slot, rest) ↔ ∃ r, Braced r slot ∧ '\x7b' :: cs = r ++ rest := by
  constructor
  · intro h
    obtain ⟨after, hclose, heq⟩ := Option.map_eq_some_iff.mp h
    cases heq
    obtain ⟨a, ha, hcs, _⟩ : Skips cs (skipBlanks cs) := skips_iff.mpr rfl
    obtain ⟨w, hw, hinner⟩ := exists_spells_content (skipBlanks cs)
    obtain ⟨b, hb, htail⟩ := close?_eq_some_iff.mp hclose
    rw [hinner, htail] at hcs
    exact ⟨_, .braces ha hw hb, by simp [hcs]⟩
  · rintro ⟨_, @⟨a, w, b, _, ha, hw, hb⟩, heq⟩
    have hcs : cs = a ++ (w ++ (b ++ '\x7d' :: rest)) := by
      simpa using heq
    rw [hcs]
    exact scan?_spelled ha hw hb rest

end Scanning

section Reading

/-- The value of the cell that a slot stands for. -/
inductive Holds (s : Scope) : Slot → Int64 → Prop
  | empty :
      Holds s .empty s.memory.current
  | offset
      {literal : List Char}
      {distance : Int64}
      (hdistance : distance.toInt = Decimal.signedValue literal) :
      Holds s (.offset literal) (s.memory.get (s.memory.addressAt distance))
  | name
      {word : List Char}
      (hmode : s.mode = .named) :
      Holds s (.name word) (s.memory.getNamed (String.ofList word))

/-- Why a slot stands for no cell that can be read. -/
inductive Fault (mode : AddressingMode) : Slot → EvalError → Prop
  | offset
      {literal : List Char}
      (hliteral : ¬ Decimal.FitsWord (Decimal.signedValue literal)) :
      Fault mode (.offset literal) (.invalidNumber (String.ofList literal))
  | name
      {word : List Char}
      (hmode : mode = .tape) :
      Fault mode (.name word) (.namedMemoryDisabled (String.ofList word))

variable {s : Scope}
variable {slot : Slot}

/-- A slot is read, or it has a fault. -/
theorem read_cases
    (s : Scope)
    (slot : Slot) :
    (∃ v, slot.read s = .ok v ∧ Holds s slot v) ∨
    (∃ err, slot.read s = .error err ∧ Fault s.mode slot err) := by
  cases slot with
  | empty =>
      exact .inl ⟨_, rfl, .empty⟩
  | offset literal =>
      cases hliteral : Decimal.signed? literal with
      | some distance =>
          refine .inl ⟨_, ?_, .offset (Decimal.signed?_eq_some_iff.mp hliteral)⟩
          simp only [read, reference, hliteral, Reference.read]
      | none =>
          refine .inr ⟨_, ?_, .offset (Decimal.signed?_eq_none_iff.mp hliteral)⟩
          simp only [read, reference, hliteral]
  | name word =>
      cases hmode : s.mode with
      | named =>
          refine .inl ⟨_, ?_, .name hmode⟩
          simp only [read, reference, Reference.read, Scope.named, hmode]
      | tape =>
          refine .inr ⟨_, ?_, .name rfl⟩
          simp only [read, reference, Reference.read, Scope.named, hmode]

theorem Fault.not_holds
    {err : EvalError}
    {v : Int64}
    (hfault : Fault s.mode slot err) :
    ¬ Holds s slot v := by
  intro hholds
  cases hfault with
  | offset hliteral =>
      cases hholds with
      | @offset _ distance hdistance =>
          rw [← hdistance] at hliteral
          exact hliteral ⟨distance.le_toInt, distance.toInt_lt⟩
  | name hmode =>
      cases hholds with
      | name hmode' =>
          rw [hmode] at hmode'
          cases hmode'

theorem Fault.ne_malformedReference
    {mode : AddressingMode}
    {err : EvalError}
    (hfault : Fault mode slot err)
    (input : String)
    (span : Span) :
    err ≠ .malformedReference input span := by
  cases hfault with
  | offset hliteral => nofun
  | name hmode => nofun

theorem read_eq_error_iff
    {err : EvalError} :
    slot.read s = .error err ↔ Fault s.mode slot err := by
  constructor
  · intro h
    rcases read_cases s slot with ⟨v, hread, _⟩ | ⟨err', hread, hfault⟩
    · rw [hread] at h
      cases h
    · rw [hread] at h
      cases h
      exact hfault
  · intro hfault
    rcases read_cases s slot with ⟨v, _, hholds⟩ | ⟨err', hread, hfault'⟩
    · exact absurd hholds hfault.not_holds
    · have herr : err' = err := by
        cases hfault <;> cases hfault' <;> rfl
      rw [hread, herr]

end Reading

end Slot
end GraphMachine
