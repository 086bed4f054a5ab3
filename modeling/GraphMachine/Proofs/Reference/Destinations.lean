import GraphMachine.Proofs.Outcome
import GraphMachine.Proofs.Reference.Cells
import GraphMachine.Proofs.Reference.Substitution
import GraphMachine.Reference.Target

/-!
# Destinations and references

A destination is nothing, an identifier, or a reference in braces, with blanks around it, and only
such texts are read as destinations.  The text of every reference is read back as the reference.

Reading the cell of a destination in braces gives what the same text gives in output, and what was
written to the cell is what the text stands for afterwards, in output and in expressions.
-/

namespace GraphMachine

open Text

namespace Target

/-- How destinations are written, apart from the blanks around them. -/
inductive Writes : List Char → Reference → Prop
  | nothing :
      Writes [] .current
  | name
      {w : List Char}
      (hw : IsIdentifier w) :
      Writes w (.named (String.ofList w))
  | braces
      {a w b : List Char}
      {r : Reference}
      (ha : Blanks a)
      (hw : Reference.Spells w r)
      (hb : Blanks b) :
      Writes ('\x7b' :: (a ++ w ++ b ++ ['\x7d'])) r

/-- The slots that destinations stand for. -/
inductive Spells : List Char → Slot → Prop
  | nothing :
      Spells [] .empty
  | name
      {w : List Char}
      (hw : IsIdentifier w) :
      Spells w (.name w)
  | braces
      {w : List Char}
      {slot : Slot}
      (hw : Slot.Braced w slot) :
      Spells w slot

theorem writes_iff
    {w : List Char}
    {r : Reference} :
    Writes w r ↔ ∃ slot, Spells w slot ∧ slot.reference = .ok r := by
  constructor
  · intro h
    cases h with
    | nothing =>
        exact ⟨.empty, .nothing, rfl⟩
    | name hw =>
        exact ⟨.name w, .name hw, rfl⟩
    | braces ha hw hb =>
        obtain ⟨slot, hslot, hreference⟩ := Slot.spells_reference_iff.mp hw
        exact ⟨slot, .braces (.braces ha hslot hb), hreference⟩
  · rintro ⟨slot, hw, hreference⟩
    cases hw with
    | nothing =>
        cases hreference
        exact .nothing
    | name hw =>
        cases hreference
        exact .name hw
    | braces hw =>
        obtain ⟨ha, hslot, hb⟩ := hw
        exact .braces ha (Slot.spells_reference_iff.mpr ⟨slot, hslot, hreference⟩) hb

section Scanning

open Peg

variable {text w rest : List Char}
variable {slot : Slot}

/-- A reference in braces at the start of a text, and what comes after it. -/
def reference? : List Char → Option (Slot × List Char)
  | '\x7b' :: inside => Slot.scan? inside
  | _ => none

/-- The destination at the start of a text, and what comes after it. -/
def content (cs : List Char) : Slot × List Char :=
  match reference? cs with
  | some found => found
  | none =>
      match identifier? cs with
      | some (word, rest) => (.name word, rest)
      | none => (.empty, cs)

theorem reference?_eq_some_iff :
    reference? text = some (slot, rest) ↔ ∃ w, Slot.Braced w slot ∧ text = w ++ rest := by
  unfold reference?
  split
  · exact Slot.scan?_eq_some_iff
  · next hbrace =>
      refine ⟨nofun, ?_⟩
      rintro ⟨_, ⟨ha, hw, hb⟩, rfl⟩
      exact absurd rfl (hbrace _)

/-- The rule for references takes what is found. -/
theorem referenceRule_cases
    (p : Place)
    (a : Attempts)
    (ha : a.position ≤ p.position) :
    (∃ slot q b,
      reference? p.rest = some (slot, q.rest) ∧
      Slot.referenceRule p a = (some (slot, q), b)) ∨
    (reference? p.rest = none ∧ ∃ b, Slot.referenceRule p a = (none, b)) := by
  cases hrest : p.rest with
  | nil =>
      have hrule : Slot.referenceRule p a = _ := Slot.referenceRule_of_ne (by simp [hrest])
      exact .inr ⟨rfl, _, hrule⟩
  | cons c cs =>
      by_cases hc : c = '\x7b'
      · subst hc
        cases hscan : Slot.scan? cs with
        | some found =>
            obtain ⟨slot, rest⟩ := found
            obtain ⟨w, b, _, hrule, _⟩ := Slot.exists_referenceRule_of_some hrest ha hscan
            exact .inl ⟨slot, p.advance ('\x7b' :: w) rest, b, hscan, hrule⟩
        | none =>
            obtain ⟨b, hrule, _⟩ := Slot.exists_referenceRule_of_none hrest ha hscan
            exact .inr ⟨hscan, b, hrule⟩
      · have hrule : Slot.referenceRule p a = _ := Slot.referenceRule_of_ne (by simp [hrest, hc])
        exact .inr ⟨by simp [reference?, hc], _, hrule⟩

/-- What follows the blanks at the start of a destination is found. -/
theorem exists_choice
    (p : Place)
    (a : Attempts)
    (ha : a.position ≤ p.position) :
    ∃ q b,
      (Slot.referenceRule <|> Slot.nameRule <|> pure .empty : Peg Slot) p a =
        (some ((content p.rest).1, q), b) ∧
      q.rest = (content p.rest).2 := by
  rcases referenceRule_cases p a ha with ⟨slot, q, b, hfound, hrule⟩ | ⟨hnone, b, hrule⟩
  · refine ⟨q, b, ?_, ?_⟩
    · rw [orElse_of_some hrule, content, hfound]
    · rw [content, hfound]
  · have hname := Slot.nameRule_eq p b
    rw [orElse_of_none hrule]
    unfold content
    rw [hnone]
    cases hword : identifier? p.rest with
    | some found =>
        rw [hword] at hname
        exact ⟨_, _, orElse_of_some hname, rfl⟩
    | none =>
        rw [hword] at hname
        rw [orElse_of_none hname]
        exact ⟨p, _, rfl, rfl⟩

/-- Only blanks may follow a destination. -/
theorem closing_cases
    (slot : Slot)
    (p : Place)
    (a : Attempts) :
    (Blanks p.rest ∧
      ∃ q, (do Slot.blanks; endOfText; pure slot : Peg Slot) p a = (some (slot, q), a)) ∨
    (¬ Blanks p.rest ∧
      ∃ b, (do Slot.blanks; endOfText; pure slot : Peg Slot) p a = (none, b)) := by
  have hblanks := discard_run isBlank p a
  by_cases hrest : Blanks p.rest
  · have hend : (p.skip isBlank).rest = [] := skipBlanks_of_blanks hrest
    refine .inl ⟨hrest, p.skip isBlank, ?_⟩
    rw [Slot.blanks, bind_of_some _ hblanks, bind_of_some _ (endOfText_of_nil hend)]
    rfl
  · have hend : (p.skip isBlank).rest ≠ [] := fun h => hrest (List.dropWhile_eq_nil_iff.mp h)
    have hstuck := bind_of_none (fun _ => pure slot) (endOfText_of_ne_nil (a := a) hend)
    exact .inr ⟨hrest, _, (bind_of_some (fun _ => do endOfText; pure slot) hblanks).trans hstuck⟩

/-- A destination is read if nothing but blanks is left behind it. -/
theorem scan_eq_ok_iff_content :
    scan text = .ok slot ↔
      (content (skipBlanks text)).1 = slot ∧ Blanks (content (skipBlanks text)).2 := by
  have hblanks := discard_run isBlank ⟨text, 0⟩ .initial
  obtain ⟨q, b, hchoice, hrest⟩ :=
    exists_choice (Place.skip ⟨text, 0⟩ isBlank) .initial (Nat.zero_le _)
  have hskip : (Place.skip ⟨text, 0⟩ isBlank).rest = skipBlanks text := rfl
  rw [hskip] at hchoice hrest
  rw [← hrest]
  have hbody :
      (do Slot.blanks
          let slot ← Slot.referenceRule <|> Slot.nameRule <|> pure .empty
          Slot.blanks
          endOfText
          pure slot : Peg Slot) ⟨text, 0⟩ .initial =
        (do Slot.blanks; endOfText; pure (content (skipBlanks text)).1 : Peg Slot) q b := by
    rw [Slot.blanks, bind_of_some _ hblanks, bind_of_some _ hchoice]
  rw [scan, Peg.parse, targetRule]
  rcases closing_cases (content (skipBlanks text)).1 q b with
    ⟨hq, q', hclosing⟩ | ⟨hq, b', hclosing⟩
  · rw [rule_of_some .target (hbody.trans hclosing)]
    simp [hq]
  · rw [rule_of_none .target (hbody.trans hclosing)]
    simp [hq]

/-- What is found at the start of a text is written there. -/
theorem exists_spells_content
    (cs : List Char) :
    ∃ w, Spells w (content cs).1 ∧ cs = w ++ (content cs).2 := by
  unfold content
  split
  · next found hfound =>
      obtain ⟨w, hw, heq⟩ := reference?_eq_some_iff.mp hfound
      exact ⟨w, .braces hw, heq⟩
  · split
    · next word rest hname =>
        obtain ⟨hw, heq⟩ := eq_append_of_identifier? hname
        exact ⟨word, .name hw, heq⟩
    · exact ⟨[], .nothing, rfl⟩

/-- An identifier with blanks behind it is found as a whole. -/
theorem identifier?_append
    {b : List Char}
    (hw : IsIdentifier w)
    (hb : Blanks b) :
    identifier? (w ++ b) = some (w, b) := by
  have hstops : Stops b := by
    simpa using hb.gaps.stops_append stops_nil
  exact word?_eq_some_iff.mpr ⟨(isIdentifier_iff_isWord w).mp hw, hstops, rfl⟩

/-- Scanning succeeds exactly for the destinations with blanks around them. -/
theorem scan_eq_ok_iff :
    scan text = .ok slot ↔ ∃ w, Padded w text ∧ Spells w slot := by
  rw [scan_eq_ok_iff_content]
  constructor
  · rintro ⟨rfl, hb⟩
    obtain ⟨a, ha, htext, _⟩ : Skips text (skipBlanks text) := skips_iff.mpr rfl
    obtain ⟨w, hw, hcontent⟩ := exists_spells_content (skipBlanks text)
    rw [hcontent] at htext
    exact ⟨w, ⟨a, _, ha, hb, htext⟩, hw⟩
  · rintro ⟨w, ⟨a, b, ha, hb, rfl⟩, hw⟩
    cases hw with
    | nothing =>
        have hskip : skipBlanks (a ++ ([] ++ b)) = [] := skipBlanks_of_blanks (ha.append hb)
        rw [hskip]
        exact ⟨rfl, by decide⟩
    | name hw =>
        have hname := identifier?_append hw hb
        cases w with
        | nil => exact hw.elim
        | cons c w =>
            have hword := hw.isWordChar c (by simp)
            have hskip : skipBlanks (a ++ (c :: w ++ b)) = c :: w ++ b :=
              skipBlanks_append_cons ha (isBlank_of_isWordChar hword) (w ++ b)
            have hbrace : c ≠ '\x7b' := by
              rintro rfl
              exact absurd hword (by decide)
            have hnone : reference? (c :: w ++ b) = none := by
              simp [reference?, hbrace]
            rw [hskip, content, hnone, hname]
            exact ⟨rfl, hb⟩
    | braces hw =>
        obtain ⟨inside, rfl⟩ : ∃ inside, w = '\x7b' :: inside := by
          cases hw
          exact ⟨_, rfl⟩
        have hskip : skipBlanks (a ++ ('\x7b' :: inside ++ b)) = '\x7b' :: (inside ++ b) :=
          skipBlanks_append_cons ha (by decide) (inside ++ b)
        have hfound : reference? ('\x7b' :: (inside ++ b)) = some (slot, b) :=
          reference?_eq_some_iff.mpr ⟨_, hw, rfl⟩
        rw [hskip, content, hfound]
        exact ⟨rfl, hb⟩

end Scanning

theorem parse_of_spells
    {text : String}
    {w : List Char}
    {slot : Slot}
    (htext : Padded w text.toList)
    (hw : Spells w slot) :
    parse text = slot.reference := by
  have hscan : scan text.toList = .ok slot := scan_eq_ok_iff.mpr ⟨w, htext, hw⟩
  rw [parse, hscan]
  rfl

theorem parse_eq_ok_iff_writes
    {text : String}
    {r : Reference} :
    parse text = .ok r ↔ ∃ w, Padded w text.toList ∧ Writes w r := by
  constructor
  · intro h
    cases hscan : scan text.toList with
    | ok slot =>
        obtain ⟨w, htext, hw⟩ := scan_eq_ok_iff.mp hscan
        rw [parse_of_spells htext hw] at h
        exact ⟨w, htext, writes_iff.mpr ⟨slot, hw, h⟩⟩
    | error stopped =>
        rw [parse, hscan] at h
        cases h
  · rintro ⟨w, htext, hw⟩
    obtain ⟨slot, hslot, hreference⟩ := writes_iff.mp hw
    rw [parse_of_spells htext hslot, hreference]

theorem parse_ofList_of_writes
    {w : List Char}
    {r : Reference}
    (hw : Writes w r) :
    parse (String.ofList w) = .ok r := by
  rw [parse_eq_ok_iff_writes, String.toList_ofList]
  exact ⟨w, padded_self w, hw⟩

end Target

namespace Reference

/-- The name of a named cell is an identifier. -/
def WellNamed : Reference → Prop
  | named name => IsIdentifier name.toList
  | _ => True

instance : (r : Reference) → Decidable r.WellNamed
  | current => inferInstanceAs (Decidable True)
  | relative _ => inferInstanceAs (Decidable True)
  | named name => inferInstanceAs (Decidable (IsIdentifier name.toList))

/-- The decimal form of a word is a spelling of the offset. -/
theorem spells_ofWord
    (offset : Int64) :
    Spells (Decimal.ofWord offset).toList (.relative offset) := by
  by_cases hsign : 0 ≤ offset.toInt
  · obtain ⟨n, hn⟩ := Int.eq_ofNat_of_zero_le hsign
    rw [Decimal.toList_ofWord hn]
    exact .unsigned (Decimal.isNumeral_toDigits n) (by simpa using hn)
  · obtain ⟨n, hn⟩ : ∃ n : Nat, offset.toInt = -n := ⟨offset.toInt.natAbs, by omega⟩
    rw [Decimal.toList_ofWord_neg hn (by omega)]
    exact .minus (Decimal.isNumeral_toDigits n) (by simpa using hn)

theorem writes_text
    {r : Reference}
    (hr : r.WellNamed) :
    Target.Writes r.text.toList r := by
  have hblanks : Blanks [] := by decide
  have hbraces {w : List Char} (hw : Spells w r) : Target.Writes ('\x7b' :: (w ++ ['\x7d'])) r := by
    simpa using Target.Writes.braces hblanks hw hblanks
  cases r with
  | current =>
      exact hbraces .current
  | relative offset =>
      simpa [text] using hbraces (spells_ofWord offset)
  | named name =>
      have hw : Spells name.toList (.named name) := by
        simpa using Spells.named hr
      simpa [text] using hbraces hw

end Reference

namespace Template

theorem Written.parse_eq
    (x : Written) :
    Target.parse (String.ofList x.chars) = x.slot.reference := by
  have htext : Padded x.chars (String.ofList x.chars).toList := by
    rw [String.toList_ofList]
    exact padded_self x.chars
  exact Target.parse_of_spells htext (.braces x.braced)

theorem Written.read_eq_bind
    (x : Written)
    (s : Scope) :
    x.slot.read s = (Target.parse (String.ofList x.chars)).bind fun r => r.read s := by
  rw [x.parse_eq, Slot.read]
  cases x.slot.reference <;> rfl

theorem render_written
    (s : Scope)
    (x : Written) :
    render s (String.ofList x.chars) = (x.slot.read s).map Decimal.ofWord := by
  have hrender := substitute_written_append plain s x (t := []) List.not_mem_nil
  simpa [render, plain] using hrender

end Template

/-- Destinations and references agree: the same texts denote the same cells in both. -/
theorem Target.agrees_with_references :
    (∀ (text : String) (r : Reference),
      parse text = .ok r ↔ ∃ w, Padded w text.toList ∧ Writes w r) ∧
    (∀ (r : Reference) (text : String),
      r.WellNamed → Padded r.text.toList text.toList → parse text = .ok r) ∧
    (∀ (x : Template.Written) (s : Scope),
      Template.render s (String.ofList x.chars) =
        ((parse (String.ofList x.chars)).bind fun r => r.read s).map Decimal.ofWord) ∧
    (∀ (x : Template.Written) (s : Scope) (v : Int64) (m : Memory),
      ((parse (String.ofList x.chars)).bind fun r => r.write v s) = .ok m →
      Template.render ⟨m, s.mode⟩ (String.ofList x.chars) = .ok (Decimal.ofWord v) ∧
      ∀ maxDepth, 4 ≤ maxDepth →
        evaluate ⟨m, s.mode⟩ maxDepth (String.ofList x.chars) = .ok (.int v)) := by
  refine ⟨?_, ?_, ?_, ?_⟩
  · intro text r
    exact parse_eq_ok_iff_writes
  · intro r text hr htext
    exact parse_eq_ok_iff_writes.mpr ⟨_, htext, Reference.writes_text hr⟩
  · intro x s
    rw [Template.render_written, x.read_eq_bind]
  · intro x s v m hwrite
    obtain ⟨r, hparse, hwrite⟩ := bind_eq_ok_iff.mp hwrite
    have hread : x.slot.read ⟨m, s.mode⟩ = .ok v := by
      rw [x.read_eq_bind, hparse]
      exact Reference.read_of_write hwrite
    refine ⟨?_, ?_⟩
    · rw [Template.render_written, hread]
      rfl
    · intro maxDepth hdepth
      rw [Template.evaluate_written _ x hdepth, hread]
      rfl

/-- The cell before the current one, with a blank before the offset and a tab behind it. -/
def Template.cellBefore : Template.Written where
  chars := ['\x7b', ' ', '-', '1', '\t', '\x7d']
  slot := .offset ['-', '1']
  braced :=
    .braces (a := [' ']) (b := ['\t']) (by decide)
      (.offset (.signed (w := ['1']) (.inr rfl) (by decide))) (by decide)

/-- The farthest cell behind the current one is read back from its text, and the smallest word that
was written to the cell before the current one is what its text stands for. -/
theorem Target.cellBefore_agrees :
    ((Reference.relative Int64.minValue).WellNamed ∧
      Padded (Reference.relative Int64.minValue).text.toList
        " \x7b-9223372036854775808\x7d\t".toList ∧
      parse " \x7b-9223372036854775808\x7d\t" = .ok (.relative Int64.minValue)) ∧
    ∃ m,
      ((parse (String.ofList Template.cellBefore.chars)).bind fun r =>
        r.write Int64.minValue ⟨Memory.empty, .tape⟩) = .ok m ∧
      Template.render ⟨m, .tape⟩ (String.ofList Template.cellBefore.chars) =
        .ok (Decimal.ofWord Int64.minValue) ∧
      evaluate ⟨m, .tape⟩ 4 (String.ofList Template.cellBefore.chars) =
        .ok (.int Int64.minValue) := by
  obtain ⟨_, hback, _, hafter⟩ := agrees_with_references
  have hpadded :
      Padded (Reference.relative Int64.minValue).text.toList
        " \x7b-9223372036854775808\x7d\t".toList :=
    ⟨[' '], ['\t'], by decide, by decide, by decide⟩
  have hparse : parse (String.ofList Template.cellBefore.chars) = .ok (.relative (-1)) := by
    rw [Template.cellBefore.parse_eq]
    decide
  have hwrite :
      ((parse (String.ofList Template.cellBefore.chars)).bind fun r =>
        r.write Int64.minValue ⟨Memory.empty, .tape⟩) =
          .ok ((Reference.relative (-1)).store Int64.minValue Memory.empty) := by
    rw [hparse]
    rfl
  obtain ⟨hrender, hevaluate⟩ := hafter Template.cellBefore _ Int64.minValue _ hwrite
  exact ⟨⟨trivial, hpadded, hback _ _ trivial hpadded⟩, _, hwrite, hrender,
    hevaluate 4 (Nat.le_refl 4)⟩

end GraphMachine
