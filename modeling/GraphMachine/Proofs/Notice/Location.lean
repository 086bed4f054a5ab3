import GraphMachine.Notice.Layout
import GraphMachine.Proofs.Text.Numerals

/-!
# Lines and columns of notices

The line and the column of an offset depend on the characters before it alone, as long as the
source does not go on with a line feed there: `lineEnds` counts the lines that end in them, and
`sinceLineEnd` the characters after the last of these ends.  Every further offset is on a later
line or in a later column.

A line feed always ends a line.  So a notice never counts fewer lines than the source has, and it
counts as many exactly if the lines before the offset end in the plain way.
-/

namespace GraphMachine
namespace Notice

/-- Whether a character ends a line before the given rest of the source. -/
def endsLine (c : Char) (rest : List Char) : Bool :=
  isLineEnd c && !(c == '\r' && rest.head? == some '\n')

/-- How many lines end in a text that goes on with no line feed. -/
def lineEnds : List Char → Nat
  | [] => 0
  | c :: cs => if endsLine c cs then lineEnds cs + 1 else lineEnds cs

/-- How many characters come after the last end of a line. -/
def sinceLineEnd : List Char → Nat
  | [] => 0
  | c :: cs =>
      if endsLine c cs = false ∧ lineEnds cs = 0 then sinceLineEnd cs + 1 else sinceLineEnd cs

section Lines

theorem endsLine_append
    {v : List Char}
    (hv : v.head? ≠ some '\n')
    (c : Char)
    (cs : List Char) :
    endsLine c (cs ++ v) = endsLine c cs := by
  cases cs with
  | nil => simp [endsLine, hv]
  | cons d cs => rfl

theorem sourceLines_cons
    (c : Char)
    (cs : List Char) :
    sourceLines (c :: cs) =
      if endsLine c cs then
        [c] :: sourceLines cs
      else
        match sourceLines cs with
        | [] => [[c]]
        | l :: ls => (c :: l) :: ls := by
  rfl

/-- A source that is not empty has a first line that is not empty. -/
theorem exists_sourceLines
    {cs : List Char}
    (hcs : cs ≠ []) :
    ∃ l ls, sourceLines cs = l :: ls ∧ l ≠ [] := by
  cases cs with
  | nil =>
      exact absurd rfl hcs
  | cons c cs =>
      rw [sourceLines_cons]
      split
      · exact ⟨[c], _, rfl, by simp⟩
      · split
        · exact ⟨[c], [], rfl, by simp⟩
        · next l ls _ => exact ⟨c :: l, ls, rfl, by simp⟩

theorem locate_eq_locateFrom
    {source : List Char}
    (hsource : source ≠ [])
    (offset : Nat) :
    locate source offset = locateFrom 1 offset (sourceLines source) := by
  obtain ⟨l, ls, hlines, _⟩ := exists_sourceLines hsource
  simp only [locate, hlines]

end Lines

section Offsets

theorem locateFrom_cons_cons
    (number offset : Nat)
    (l l' : List Char)
    (ls : List (List Char)) :
    locateFrom number offset (l :: l' :: ls) =
      if offset < l.length then
        some ⟨number, offset, l⟩
      else
        locateFrom (number + 1) (offset - l.length) (l' :: ls) := by
  rfl

theorem le_number_of_locateFrom
    {number offset : Nat}
    {ls : List (List Char)}
    {p : Place}
    (h : locateFrom number offset ls = some p) :
    number ≤ p.number := by
  induction ls generalizing number offset with
  | nil =>
      cases h
  | cons l ls ih =>
      cases ls with
      | nil =>
          simp only [locateFrom, Option.ite_none_right_eq_some, Option.some.injEq] at h
          rw [← h.2]
      | cons l' ls =>
          rw [locateFrom_cons_cons] at h
          split at h
          · cases h
            exact Nat.le_refl _
          · have hnext := ih h
            omega

/-- A further offset is on a later line, or in a later column of the same one. -/
theorem lt_of_locateFrom
    {number offset offset' : Nat}
    {ls : List (List Char)}
    {p p' : Place}
    (h : locateFrom number offset ls = some p)
    (h' : locateFrom number offset' ls = some p')
    (hlt : offset < offset') :
    p.number < p'.number ∨ (p.number = p'.number ∧ p.column < p'.column) := by
  induction ls generalizing number offset offset' with
  | nil =>
      cases h
  | cons l ls ih =>
      cases ls with
      | nil =>
          simp only [locateFrom, Option.ite_none_right_eq_some, Option.some.injEq] at h h'
          rw [← h.2, ← h'.2]
          exact .inr ⟨rfl, hlt⟩
      | cons l' ls =>
          rw [locateFrom_cons_cons] at h h'
          split at h
          · cases h
            split at h'
            · cases h'
              exact .inr ⟨rfl, hlt⟩
            · have hnext := le_number_of_locateFrom h'
              exact .inl (by simpa using hnext)
          · split at h'
            · omega
            · exact ih h h' (by omega)

/-- A character more at the start of a line moves the places on that line by one column. -/
theorem locateFrom_cons_char
    (c : Char)
    (number offset : Nat)
    (l : List Char)
    (ls : List (List Char)) :
    locateFrom number (offset + 1) ((c :: l) :: ls) =
      (locateFrom number offset (l :: ls)).map fun p =>
        if p.number = number then ⟨p.number, p.column + 1, c :: p.line⟩ else p := by
  cases ls with
  | nil =>
      simp only [locateFrom, List.length_cons, Nat.add_le_add_iff_right]
      split
      · simp
      · rfl
  | cons l' ls =>
      simp only [locateFrom_cons_cons, List.length_cons, Nat.add_lt_add_iff_right,
        Nat.add_sub_add_right]
      split
      · simp
      · cases hrest : locateFrom (number + 1) (offset - l.length) (l' :: ls) with
        | none =>
            rfl
        | some p =>
            have hlater := le_number_of_locateFrom hrest
            have hne : p.number ≠ number := by omega
            simp [hne]

/-- The place after some characters, if the source does not go on with a line feed there. -/
theorem exists_locateFrom
    {v : List Char}
    (hv : v ≠ [])
    (hhead : v.head? ≠ some '\n')
    (u : List Char)
    (number : Nat) :
    ∃ line,
      locateFrom number u.length (sourceLines (u ++ v)) =
        some ⟨number + lineEnds u, sinceLineEnd u, line⟩ := by
  induction u generalizing number with
  | nil =>
      obtain ⟨l, ls, hlines, hl⟩ := exists_sourceLines hv
      refine ⟨l, ?_⟩
      rw [List.nil_append, hlines]
      have hpos := List.length_pos_iff.mpr hl
      cases ls with
      | nil => simp [locateFrom, lineEnds, sinceLineEnd]
      | cons l' ls => simp [locateFrom_cons_cons, lineEnds, sinceLineEnd, hpos]
  | cons c u ih =>
      have hne : u ++ v ≠ [] := by simp [hv]
      obtain ⟨l, ls, hlines, _⟩ := exists_sourceLines hne
      rw [List.cons_append, sourceLines_cons, endsLine_append hhead, List.length_cons, hlines]
      cases hends : endsLine c u with
      | true =>
          obtain ⟨line, hline⟩ := ih (number + 1)
          refine ⟨line, ?_⟩
          have hpassed : ¬ u.length + 1 < [c].length := by simp
          have hnumber : number + lineEnds (c :: u) = number + 1 + lineEnds u := by
            simp only [lineEnds, hends, if_true]
            omega
          have hcolumn : sinceLineEnd (c :: u) = sinceLineEnd u := by
            simp [sinceLineEnd, hends]
          rw [if_pos rfl, locateFrom_cons_cons, if_neg hpassed, hnumber, hcolumn, ← hline, hlines]
          rfl
      | false =>
          obtain ⟨line, hline⟩ := ih number
          rw [hlines] at hline
          simp only [Bool.false_eq_true, if_false, locateFrom_cons_char, hline, Option.map_some,
            lineEnds, sinceLineEnd, hends, Nat.add_eq_left, true_and]
          split
          · exact ⟨_, rfl⟩
          · exact ⟨_, rfl⟩

end Offsets

section LineFeeds

/-- Every line of a text ends with a line feed, or a carriage return and a line feed. -/
def PlainLines (u : List Char) : Prop :=
  ∀ p c q, u = p ++ c :: q → isLineEnd c = true → c = '\n' ∨ (c = '\r' ∧ q.head? = some '\n')

theorem plainLines_nil :
    PlainLines [] := by
  intro p c q hu
  simp at hu

theorem plainLines_cons_iff
    (c : Char)
    (cs : List Char) :
    PlainLines (c :: cs) ↔ (endsLine c cs = true → c = '\n') ∧ PlainLines cs := by
  constructor
  · intro h
    refine ⟨?_, ?_⟩
    · intro hends
      simp only [endsLine, Bool.and_eq_true, Bool.not_eq_true', Bool.and_eq_false_iff,
        beq_eq_false_iff_ne] at hends
      rcases h [] c cs rfl hends.1 with hc | ⟨hc, hnext⟩
      · exact hc
      · rcases hends.2 with hne | hne
        · exact absurd hc hne
        · exact absurd hnext hne
    · intro p d q hcs hd
      exact h (c :: p) d q (by rw [hcs]; rfl) hd
  · rintro ⟨hhead, htail⟩ p d q hcs hd
    cases p with
    | cons e p =>
        simp only [List.cons_append, List.cons.injEq] at hcs
        exact htail p d q hcs.2 hd
    | nil =>
        simp only [List.nil_append, List.cons.injEq] at hcs
        obtain ⟨rfl, rfl⟩ := hcs
        by_cases hends : endsLine c cs = true
        · exact .inl (hhead hends)
        · simp only [endsLine, hd, Bool.true_and, Bool.not_eq_true', Bool.not_eq_false,
            Bool.and_eq_true, beq_iff_eq] at hends
          exact .inr hends

theorem PlainLines.of_append
    {u v : List Char}
    (h : PlainLines (u ++ v)) :
    PlainLines v := by
  intro p c q hv hc
  exact h (u ++ p) c q (by simp [hv]) hc

theorem endsLine_lineFeed
    (rest : List Char) :
    endsLine '\n' rest = true := by
  simp [endsLine, isLineEnd]

/-- Every line feed ends a line. -/
theorem count_le_lineEnds
    (u : List Char) :
    u.count '\n' ≤ lineEnds u := by
  induction u with
  | nil =>
      exact Nat.le_refl 0
  | cons c u ih =>
      by_cases hc : c = '\n'
      · subst hc
        simpa [lineEnds, endsLine_lineFeed] using ih
      · simp only [lineEnds, List.count_cons_of_ne hc]
        split <;> omega

theorem lineEnds_eq_count_iff
    (u : List Char) :
    lineEnds u = u.count '\n' ↔ PlainLines u := by
  induction u with
  | nil =>
      simp [lineEnds, plainLines_nil]
  | cons c u ih =>
      have hle := count_le_lineEnds u
      rw [plainLines_cons_iff, ← ih]
      by_cases hc : c = '\n'
      · subst hc
        simp [lineEnds, endsLine_lineFeed]
      · cases hends : endsLine c u with
        | true =>
            simp only [lineEnds, hends, if_true, List.count_cons_of_ne hc, hc, imp_false,
              not_true_eq_false, false_and, iff_false]
            omega
        | false =>
            simp [lineEnds, hends, List.count_cons_of_ne hc]

theorem sinceLineEnd_of_lineEnds
    {u : List Char}
    (h : lineEnds u = 0) :
    sinceLineEnd u = u.length := by
  induction u with
  | nil =>
      rfl
  | cons c u ih =>
      cases hends : endsLine c u with
      | true =>
          simp [lineEnds, hends] at h
      | false =>
          simp only [lineEnds, hends, Bool.false_eq_true, if_false] at h
          simp [sinceLineEnd, hends, h, ih h]

/-- What comes before a line feed does not count. -/
theorem sinceLineEnd_append
    (u v : List Char) :
    sinceLineEnd (u ++ '\n' :: v) = sinceLineEnd v := by
  induction u with
  | nil =>
      simp [sinceLineEnd, endsLine_lineFeed]
  | cons c u ih =>
      have hpos : lineEnds (u ++ '\n' :: v) ≠ 0 := by
        have hcount := count_le_lineEnds (u ++ '\n' :: v)
        simp only [List.count_append, List.count_cons_self] at hcount
        omega
      simp [sinceLineEnd, hpos, ih]

/-- With plain lines, the column counts the characters since the last line feed. -/
theorem PlainLines.sinceLineEnd_eq
    {above lead : List Char}
    (h : PlainLines (above ++ lead))
    (habove : above = [] ∨ above.getLast? = some '\n')
    (hlead : '\n' ∉ lead) :
    sinceLineEnd (above ++ lead) = lead.length := by
  have hzero : lineEnds lead = 0 := by
    rw [(lineEnds_eq_count_iff lead).mpr h.of_append]
    exact List.count_eq_zero.mpr hlead
  rcases habove with rfl | hlast
  · exact sinceLineEnd_of_lineEnds hzero
  · obtain ⟨start, rfl⟩ := List.getLast?_eq_some_iff.mp hlast
    rw [List.append_assoc, List.singleton_append, sinceLineEnd_append]
    exact sinceLineEnd_of_lineEnds hzero

end LineFeeds

section Bytes

open Text

theorem length_le_byteLength
    (u : List Char) :
    u.length ≤ byteLength u := by
  induction u with
  | nil =>
      exact Nat.le_refl 0
  | cons c u ih =>
      have hpos := c.utf8Size_pos
      simp only [List.length_cons, byteLength_cons]
      omega

/-- A text has as many bytes as characters if each of them is a single byte. -/
theorem byteLength_eq_length_iff
    (u : List Char) :
    byteLength u = u.length ↔ ∀ c ∈ u, c.utf8Size = 1 := by
  induction u with
  | nil =>
      simp
  | cons c u ih =>
      have hpos := c.utf8Size_pos
      have hle := length_le_byteLength u
      rw [List.forall_mem_cons, ← ih, byteLength_cons, List.length_cons]
      omega

variable {above lead after : List Char}

/-- The number of bytes before a part of the source, read as a number of characters, leads to the
line and the column of the part exactly if each character before it is a single byte and each line
before it ends in the plain way. -/
theorem locate_byteLength_iff
    (habove : above = [] ∨ above.getLast? = some '\n')
    (hlead : '\n' ∉ lead)
    (hafter : after ≠ [])
    (hhead : after.head? ≠ some '\n') :
    (∃ line,
      locate (above ++ lead ++ after) (byteLength (above ++ lead)) =
        some ⟨above.count '\n' + 1, lead.length, line⟩) ↔
      (∀ c ∈ above ++ lead, c.utf8Size = 1) ∧ PlainLines (above ++ lead) := by
  have hcount : (above ++ lead).count '\n' = above.count '\n' := by
    rw [List.count_append, List.count_eq_zero.mpr hlead, Nat.add_zero]
  have hsource : above ++ lead ++ after ≠ [] := by simp [hafter]
  obtain ⟨line, hplace⟩ := exists_locateFrom hafter hhead (above ++ lead) 1
  rw [locate_eq_locateFrom hsource, ← byteLength_eq_length_iff]
  constructor
  · rintro ⟨line', hplace'⟩
    have hends := count_le_lineEnds (above ++ lead)
    -- Any further offset is too far down, or too far right on the same line.
    have hbytes : byteLength (above ++ lead) = (above ++ lead).length := by
      by_contra hne
      have hle := length_le_byteLength (above ++ lead)
      rcases lt_of_locateFrom hplace hplace' (by omega) with hlater | ⟨hsame, hright⟩
      · simp only at hlater
        omega
      · have hplain : PlainLines (above ++ lead) := by
          rw [← lineEnds_eq_count_iff]
          simp only at hsame
          omega
        simp only [hplain.sinceLineEnd_eq habove hlead] at hright
        omega
    refine ⟨hbytes, ?_⟩
    rw [hbytes, hplace, Option.some.injEq, Place.mk.injEq] at hplace'
    rw [← lineEnds_eq_count_iff]
    omega
  · rintro ⟨hbytes, hplain⟩
    refine ⟨line, ?_⟩
    have hnumber := (lineEnds_eq_count_iff _).mpr hplain
    rw [hbytes, hplace, hplain.sinceLineEnd_eq habove hlead, hnumber, hcount, Nat.add_comm]

/-- The mark of a span in bytes starts on the right line and in the right column exactly if in
addition the end of the span, in bytes, is not past the number of characters. -/
theorem mark?_byteLength_iff
    (habove : above = [] ∨ above.getLast? = some '\n')
    (hlead : '\n' ∉ lead)
    (hafter : after ≠ [])
    (hhead : after.head? ≠ some '\n')
    (stop : Nat) :
    (∃ m,
      mark? (above ++ lead ++ after) ⟨byteLength (above ++ lead), stop⟩ = some m ∧
      m.place.number = above.count '\n' + 1 ∧
      m.place.column = lead.length) ↔
      (∀ c ∈ above ++ lead, c.utf8Size = 1) ∧
      PlainLines (above ++ lead) ∧
      stop - 1 ≤ (above ++ lead ++ after).length := by
  rw [← and_assoc, ← locate_byteLength_iff habove hlead hafter hhead]
  constructor
  · rintro ⟨⟨⟨number, column, line⟩, length⟩, hmark, rfl, rfl⟩
    simp only [mark?, Option.ite_none_right_eq_some, Option.map_eq_some_iff] at hmark
    obtain ⟨⟨_, hstop⟩, place, hplace, hm⟩ := hmark
    cases hm
    exact ⟨⟨line, hplace⟩, hstop⟩
  · rintro ⟨⟨line, hplace⟩, hstop⟩
    have hplain := (locate_byteLength_iff habove hlead hafter hhead).mp ⟨line, hplace⟩
    have hbytes := (byteLength_eq_length_iff _).mpr hplain.1
    have hstart : byteLength (above ++ lead) ≤ (above ++ lead ++ after).length := by
      rw [hbytes]
      simp
    refine ⟨⟨⟨_, _, line⟩, stop - byteLength (above ++ lead)⟩, ?_, rfl, rfl⟩
    simp only [mark?, hstart, hstop, and_self, if_true, hplace, Option.map_some]

end Bytes

section Header

/-- The line of a drawn notice that names the place. -/
def header (color : Bool) (name : String) (line column : Nat) : String :=
  let ink := paint color .frame
  row ' ' ((Decimal.ofNat line).length + 2) ++ ink "╭" ++ ink "─" ++ ink "[" ++
    (" " ++ name ++ ":" ++ Decimal.ofNat line ++ ":" ++ Decimal.ofNat column ++ " ") ++
    ink "]" ++ "\n"

theorem exists_frame_eq
    (color : Bool)
    (name label : String)
    (help : Option String)
    (m : Mark) :
    ∃ rest,
      frame color name label help m =
        header color name m.place.number (m.place.column + 1) ++ rest := by
  simp only [frame, header, String.append_assoc]
  exact ⟨_, rfl⟩

/-- A run of a character ends where another one comes. -/
theorem replicate_append_cons_inj
    {x y : Char}
    {k k' : Nat}
    {u u' : List Char}
    (hne : y ≠ x)
    (h : List.replicate k x ++ y :: u = List.replicate k' x ++ y :: u') :
    k = k' ∧ u = u' := by
  induction k generalizing k' with
  | zero =>
      cases k' with
      | zero => simpa using h
      | succ k' =>
          simp only [List.replicate_succ, List.replicate_zero, List.nil_append, List.cons_append,
            List.cons.injEq] at h
          exact absurd h.1 hne
  | succ k ih =>
      cases k' with
      | zero =>
          simp only [List.replicate_succ, List.replicate_zero, List.nil_append, List.cons_append,
            List.cons.injEq] at h
          exact absurd h.1.symm hne
      | succ k' =>
          simp only [List.replicate_succ, List.cons_append, List.cons.injEq, true_and] at h
          simpa using ih h

theorem toList_ofNat
    (n : Nat) :
    (Decimal.ofNat n).toList = Nat.toDigits 10 n :=
  Nat.toList_repr

theorem toDigits_inj
    {m n : Nat}
    (h : Nat.toDigits 10 m = Nat.toDigits 10 n) :
    m = n := by
  rw [← Decimal.value_toDigits m, h, Decimal.value_toDigits]

theorem exists_paint_eq
    (color : Bool)
    (ink : Ink) :
    ∃ c cs, c ≠ ' ' ∧ (paint color ink "╭").toList = c :: cs := by
  cases color with
  | true =>
      have hescape : "\x1b[".toList = ['\x1b', '['] := by decide
      simp only [paint, if_true, escaped, String.toList_append, hescape]
      exact ⟨'\x1b', _, by decide, rfl⟩
  | false =>
      exact ⟨'╭', [], by decide, by simp [paint]⟩

/-- Two numerals before a space are equal if the texts are. -/
theorem toDigits_append_space_inj
    {m n : Nat}
    {u v : List Char}
    (h : Nat.toDigits 10 m ++ ' ' :: u = Nat.toDigits 10 n ++ ' ' :: v) :
    m = n := by
  have htake (k : Nat) (w : List Char) :
      (Nat.toDigits 10 k ++ ' ' :: w).takeWhile Char.isDigit = Nat.toDigits 10 k :=
    Text.takeWhile_append_of_head (Decimal.isNumeral_toDigits k).2 (by simp)
  apply toDigits_inj
  rw [← htake m u, h, htake]

/-- A header names one line and one column. -/
theorem header_inj
    {color : Bool}
    {name : String}
    {line line' column column' : Nat}
    {rest rest' : String}
    (h : header color name line column ++ rest = header color name line' column' ++ rest') :
    line = line' ∧ column = column' := by
  obtain ⟨c, cs, hc, hcorner⟩ := exists_paint_eq color .frame
  have hspace : " ".toList = [' '] := by decide
  have hcolon : ":".toList = [':'] := by decide
  replace h := congrArg String.toList h
  simp only [header, row, String.toList_append, String.toList_ofList, toList_ofNat, hcorner,
    hspace, hcolon, List.append_assoc, List.cons_append, List.nil_append] at h
  obtain ⟨hwidth, h⟩ := replicate_append_cons_inj hc h
  simp only [List.append_cancel_left_eq, List.cons.injEq, true_and] at h
  have hlength : (Nat.toDigits 10 line).length = (Nat.toDigits 10 line').length := by
    rw [← toList_ofNat, ← toList_ofNat, String.length_toList, String.length_toList]
    omega
  obtain ⟨hline, h⟩ := List.append_inj h hlength
  simp only [List.cons.injEq, true_and] at h
  exact ⟨toDigits_inj hline, toDigits_append_space_inj h⟩

/-- A notice is drawn with a header that names this line and this column. -/
def Shows (color : Bool) (name source : String) (n : Notice) (line column : Nat) : Prop :=
  ∃ rest, n.render color name source = headline color n ++ header color name line column ++ rest

theorem shows_iff
    (color : Bool)
    (name source : String)
    (n : Notice)
    (line column : Nat) :
    n.Shows color name source line (column + 1) ↔
      ∃ span m,
        n.span = some span ∧
        mark? source.toList span = some m ∧
        m.place.number = line ∧
        m.place.column = column := by
  unfold Shows render
  cases hmark : n.span.bind (mark? source.toList) with
  | none =>
      constructor
      · rintro ⟨rest, hrest⟩
        replace hrest := congrArg String.length hrest
        simp only [header, row, String.length_append, String.length_ofList,
          List.length_replicate, String.append_empty] at hrest
        omega
      · rintro ⟨span, m, hspan, hm, _⟩
        rw [hspan, Option.bind_some, hm] at hmark
        cases hmark
  | some m =>
      obtain ⟨span, hspan, hm⟩ := Option.bind_eq_some_iff.mp hmark
      obtain ⟨rest, hframe⟩ := exists_frame_eq color name n.label n.help m
      simp only [hframe]
      constructor
      · rintro ⟨rest', hrest⟩
        rw [String.append_assoc] at hrest
        obtain ⟨hline, hcolumn⟩ := header_inj (String.append_right_inj _ |>.mp hrest)
        exact ⟨span, m, hspan, hm, hline, by omega⟩
      · rintro ⟨span', m', hspan', hm', rfl, rfl⟩
        rw [hspan, Option.some.injEq] at hspan'
        subst hspan'
        rw [hm, Option.some.injEq] at hm'
        subst hm'
        exact ⟨rest, String.append_assoc.symm⟩

end Header

end Notice
end GraphMachine
