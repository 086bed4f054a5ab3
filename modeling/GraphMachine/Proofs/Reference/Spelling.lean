import GraphMachine.Proofs.Text.Blanks
import GraphMachine.Proofs.Text.Numerals
import GraphMachine.Reference.Slot

/-!
# Spellings of references

Between the braces of a reference stands nothing, a numeral with an optional sign, or an
identifier, with blanks around it.  What is taken off a text is described by functions on texts.
They find every spelling, whatever follows the closing brace.
-/

namespace GraphMachine

open Text

namespace Reference

/-- How references are written between their braces, apart from blanks. -/
inductive Spells : List Char → Reference → Prop
  | current :
      Spells [] .current
  | unsigned
      {w : List Char}
      {offset : Int64}
      (hw : IsNumeral w)
      (hoffset : offset.toInt = Decimal.value w) :
      Spells w (.relative offset)
  | plus
      {w : List Char}
      {offset : Int64}
      (hw : IsNumeral w)
      (hoffset : offset.toInt = Decimal.value w) :
      Spells ('+' :: w) (.relative offset)
  | minus
      {w : List Char}
      {offset : Int64}
      (hw : IsNumeral w)
      (hoffset : offset.toInt = -Decimal.value w) :
      Spells ('-' :: w) (.relative offset)
  | named
      {w : List Char}
      (hw : IsIdentifier w) :
      Spells w (.named (String.ofList w))

end Reference

namespace Slot

/-- A row of digits at the start of a text. -/
def digits? (cs : List Char) : Option (List Char × List Char) :=
  match cs.takeWhile Char.isDigit with
  | [] => none
  | d :: ds => some (d :: ds, cs.dropWhile Char.isDigit)

/-- An offset at the start of a text: digits after an optional sign. -/
def offset? : List Char → Option (List Char × List Char)
  | [] => none
  | c :: cs =>
      if c = '+' ∨ c = '-' then
        (digits? cs).map fun (ds, rest) => (c :: ds, rest)
      else
        digits? (c :: cs)

/-- The slot at the start of a text, and what comes after it. -/
def content (cs : List Char) : Slot × List Char :=
  match offset? cs with
  | some (literal, rest) => (.offset literal, rest)
  | none =>
      match identifier? cs with
      | some (word, rest) => (.name word, rest)
      | none => (.empty, cs)

/-- What comes after blanks and a closing brace. -/
def close? (cs : List Char) : Option (List Char) :=
  match skipBlanks cs with
  | '\x7d' :: rest => some rest
  | _ => none

/-- The inside of a reference at the start of a text, and what comes after its closing brace. -/
def scan? (cs : List Char) : Option (Slot × List Char) :=
  let found := content (skipBlanks cs)
  (close? found.2).map fun after => (found.1, after)

theorem close?_blanks
    {b : List Char}
    (hb : Blanks b)
    (rest : List Char) :
    close? (b ++ '\x7d' :: rest) = some rest := by
  have hskip : skipBlanks (b ++ '\x7d' :: rest) = '\x7d' :: rest :=
    skipBlanks_append_cons hb (by decide) rest
  simp [close?, hskip]

theorem stops_blanks
    {b : List Char}
    (hb : Blanks b)
    (rest : List Char) :
    Stops (b ++ '\x7d' :: rest) := by
  exact hb.gaps.stops_append (stops_cons (by decide))

theorem digits?_numeral
    {w rest : List Char}
    (hw : IsNumeral w)
    (hrest : Stops rest) :
    digits? (w ++ rest) = some (w, rest) := by
  have htake := takeWhile_append_of_head hw.2 hrest.isDigit
  have hdrop := dropWhile_append_of_head hw.2 hrest.isDigit
  unfold digits?
  rw [htake, hdrop]
  cases w with
  | nil => exact absurd rfl hw.1
  | cons c w => rfl

theorem scan?_of_content
    {cs inner tail after : List Char}
    {slot : Slot}
    (hskip : skipBlanks cs = inner)
    (hcontent : content inner = (slot, tail))
    (hclose : close? tail = some after) :
    scan? cs = some (slot, after) := by
  simp [scan?, hskip, hcontent, hclose]

theorem content_of_offset
    {cs literal tail : List Char}
    (hoffset : offset? cs = some (literal, tail)) :
    content cs = (.offset literal, tail) := by
  simp [content, hoffset]

theorem content_of_name
    {cs word tail : List Char}
    (hoffset : offset? cs = none)
    (hname : identifier? cs = some (word, tail)) :
    content cs = (.name word, tail) := by
  simp [content, hoffset, hname]

theorem content_of_none
    {cs : List Char}
    (hoffset : offset? cs = none)
    (hname : identifier? cs = none) :
    content cs = (.empty, cs) := by
  simp [content, hoffset, hname]

theorem scan?_numeral
    {a w b : List Char}
    (ha : Blanks a)
    (hw : IsNumeral w)
    (hb : Blanks b)
    (rest : List Char) :
    scan? (a ++ (w ++ (b ++ '\x7d' :: rest))) = some (.offset w, rest) := by
  have hdigits := digits?_numeral hw (stops_blanks hb rest)
  cases w with
  | nil => exact absurd rfl hw.1
  | cons c w =>
      have hc : c.isDigit = true := hw.2 c (by simp)
      have hblank := isBlank_of_isWordChar (hw.isWordChar c (by simp))
      have hsign : ¬ (c = '+' ∨ c = '-') := by
        rintro (rfl | rfl)
        · exact absurd hc (by decide)
        · exact absurd hc (by decide)
      have hoffset : offset? (c :: w ++ (b ++ '\x7d' :: rest)) =
          some (c :: w, b ++ '\x7d' :: rest) := by
        simpa [offset?, hsign] using hdigits
      exact scan?_of_content (skipBlanks_append_cons ha hblank _) (content_of_offset hoffset)
        (close?_blanks hb rest)

theorem scan?_signed
    {sign : Char}
    {a w b : List Char}
    (hsign : sign = '+' ∨ sign = '-')
    (ha : Blanks a)
    (hw : IsNumeral w)
    (hb : Blanks b)
    (rest : List Char) :
    scan? (a ++ (sign :: w ++ (b ++ '\x7d' :: rest))) = some (.offset (sign :: w), rest) := by
  have hdigits := digits?_numeral hw (stops_blanks hb rest)
  have hblank : isBlank sign = false := by
    rcases hsign with rfl | rfl
    · decide
    · decide
  have hoffset : offset? (sign :: w ++ (b ++ '\x7d' :: rest)) =
      some (sign :: w, b ++ '\x7d' :: rest) := by
    simp [offset?, hsign, hdigits]
  exact scan?_of_content (skipBlanks_append_cons ha hblank _) (content_of_offset hoffset)
    (close?_blanks hb rest)

theorem scan?_identifier
    {a w b : List Char}
    (ha : Blanks a)
    (hw : IsIdentifier w)
    (hb : Blanks b)
    (rest : List Char) :
    scan? (a ++ (w ++ (b ++ '\x7d' :: rest))) = some (.name w, rest) := by
  cases w with
  | nil => exact hw.elim
  | cons c w =>
      have hword := hw.isWordChar c (by simp)
      have hblank := isBlank_of_isWordChar hword
      have hdigit := isDigit_of_isWordStart hw.1
      have hsign : ¬ (c = '+' ∨ c = '-') := by
        rintro (rfl | rfl)
        · exact absurd hword (by decide)
        · exact absurd hword (by decide)
      have hstops := stops_blanks hb rest
      have htake := takeWhile_append_of_head hw.2 hstops
      have hdrop := dropWhile_append_of_head hw.2 hstops
      have hskip :
          skipBlanks (a ++ (c :: w ++ (b ++ '\x7d' :: rest))) =
            c :: (w ++ (b ++ '\x7d' :: rest)) :=
        skipBlanks_append_cons ha hblank _
      refine scan?_of_content hskip (content_of_name ?_ ?_) (close?_blanks hb rest)
      · simp [offset?, hsign, digits?, hdigit]
      · simp only [identifier?, word?, hw.1, if_true]
        rw [htake, hdrop]

theorem scan?_empty
    {a b : List Char}
    (ha : Blanks a)
    (hb : Blanks b)
    (rest : List Char) :
    scan? (a ++ (b ++ '\x7d' :: rest)) = some (.empty, rest) := by
  have hskip : skipBlanks (a ++ (b ++ '\x7d' :: rest)) = '\x7d' :: rest := by
    rw [← List.append_assoc]
    exact skipBlanks_append_cons (ha.append hb) (by decide) rest
  have hclose : close? ('\x7d' :: rest) = some rest :=
    close?_blanks (b := []) (by simp [Blanks]) rest
  have hoffset : offset? ('\x7d' :: rest) = none := by
    simp [offset?, digits?]
  have hname : identifier? ('\x7d' :: rest) = none := by
    simp [identifier?, word?, isWordStart]
  exact scan?_of_content hskip (content_of_none hoffset hname) hclose

end Slot
end GraphMachine
