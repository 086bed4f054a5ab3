import GraphMachine.Proofs.Reference.SlotRules
import GraphMachine.Reference.Template

/-!
# Texts cut at their references

A template whose open braces all begin references is plain text with references in between, in one
way only.  Such a layout says what replacing the references gives: the plain text is kept, every
reference gives way to a value, and the leftmost reference that cannot be read decides the error.

If some open brace begins no reference, the first such brace is reported, whatever could be said of
the references before it.
-/

namespace GraphMachine

open Text

namespace Template

/-- Text in which no open brace stands. -/
structure Plain where
  chars : List Char
  brace_notMem : '\x7b' ∉ chars

/-- A reference as it is written. -/
structure Written where
  chars : List Char
  slot : Slot
  braced : Slot.Braced chars slot

/-- A text cut at its references: plain text, a reference, and so on, and plain text at the end. -/
inductive Layout where
  | last (text : Plain)
  | more (text : Plain) (reference : Written) (rest : Layout)

namespace Layout

def references : Layout → List Written
  | last _ => []
  | more _ r rest => r :: rest.references

/-- The text with something else in the place of every reference. -/
def replaced (form : Written → List Char) : Layout → List Char
  | last t => t.chars
  | more t r rest => t.chars ++ (form r ++ rest.replaced form)

def text (l : Layout) : List Char :=
  l.replaced Written.chars

def pieces : Layout → List Piece
  | last t => t.chars.map .char
  | more t r rest => t.chars.map .char ++ .slot r.slot :: rest.pieces

end Layout

/-- The text behind an open brace goes on as a reference. -/
def BeginsReference (after : List Char) : Prop :=
  ∃ (r : Written) (rest : List Char), '\x7b' :: after = r.chars ++ rest

/-- Every open brace of the text begins a reference. -/
def WellBraced (text : List Char) : Prop :=
  ∀ before after, text = before ++ '\x7b' :: after → BeginsReference after

/-- The first open brace that begins no reference, with the text before and after it. -/
structure FirstStray (text before after : List Char) : Prop where
  text_eq : text = before ++ '\x7b' :: after
  stray : ¬ BeginsReference after
  first : ∀ u v, text = u ++ '\x7b' :: v → ¬ BeginsReference v → before.length ≤ u.length

section Braces

theorem BeginsReference.append
    {after : List Char}
    (h : BeginsReference after)
    (more : List Char) :
    BeginsReference (after ++ more) := by
  obtain ⟨r, rest, heq⟩ := h
  refine ⟨r, rest ++ more, ?_⟩
  rw [← List.cons_append, heq, List.append_assoc]

theorem beginsReference_iff
    (after : List Char) :
    BeginsReference after ↔ (Slot.scan? after).isSome = true := by
  constructor
  · rintro ⟨r, rest, heq⟩
    rw [Slot.scan?_eq_some_iff.mpr ⟨r.chars, r.braced, heq⟩]
    rfl
  · intro h
    obtain ⟨⟨slot, rest⟩, hscan⟩ := Option.isSome_iff_exists.mp h
    obtain ⟨chars, hbraced, heq⟩ := Slot.scan?_eq_some_iff.mp hscan
    exact ⟨⟨chars, slot, hbraced⟩, rest, heq⟩

instance (after : List Char) : Decidable (BeginsReference after) :=
  decidable_of_iff _ (beginsReference_iff after).symm

theorem wellBraced_cons_iff
    (c : Char)
    (cs : List Char) :
    WellBraced (c :: cs) ↔ (c = '\x7b' → BeginsReference cs) ∧ WellBraced cs := by
  constructor
  · intro h
    refine ⟨?_, ?_⟩
    · rintro rfl
      exact h [] cs rfl
    · rintro before after rfl
      exact h (c :: before) after rfl
  · rintro ⟨hhead, htail⟩ before after heq
    cases before with
    | nil =>
        cases heq
        exact hhead rfl
    | cons d before =>
        cases heq
        exact htail before after rfl

theorem wellBraced_append_iff
    {t : List Char}
    (ht : '\x7b' ∉ t)
    (cs : List Char) :
    WellBraced (t ++ cs) ↔ WellBraced cs := by
  induction t with
  | nil =>
      rfl
  | cons c t ih =>
      rw [List.mem_cons, not_or] at ht
      rw [List.cons_append, wellBraced_cons_iff, ih ht.2]
      exact and_iff_right fun hc => absurd hc.symm ht.1

/-- A reference has no brace apart from its first and its last character. -/
theorem Written.exists_inside
    (r : Written) :
    ∃ inside, r.chars = '\x7b' :: inside ∧ '\x7b' ∉ inside := by
  obtain ⟨_, slot, @⟨a, w, b, _, ha, hw, hb⟩⟩ := r
  refine ⟨_, rfl, ?_⟩
  have hinner : '\x7b' ∉ w := hw.notMem (by decide) (by decide) (by decide)
  simp [ha.notMem (c := '\x7b') (by decide), hb.notMem (c := '\x7b') (by decide), hinner]

/-- A reference is read off a text in one way only. -/
theorem Written.append_inj
    {r r' : Written}
    {u u' : List Char}
    (h : r.chars ++ u = r'.chars ++ u') :
    r = r' ∧ u = u' := by
  obtain ⟨inside, hinside, _⟩ := r.exists_inside
  have htext : '\x7b' :: (inside ++ u) = r.chars ++ u := by
    rw [hinside, List.cons_append]
  have hscan : Slot.scan? (inside ++ u) = some (r.slot, u) :=
    Slot.scan?_eq_some_iff.mpr ⟨r.chars, r.braced, htext⟩
  have hscan' : Slot.scan? (inside ++ u) = some (r'.slot, u') :=
    Slot.scan?_eq_some_iff.mpr ⟨r'.chars, r'.braced, htext.trans h⟩
  rw [hscan] at hscan'
  simp only [Option.some.injEq, Prod.mk.injEq] at hscan'
  obtain ⟨hslot, rfl⟩ := hscan'
  have hchars : r.chars = r'.chars := List.append_cancel_right h
  obtain ⟨chars, slot, braced⟩ := r
  obtain ⟨chars', slot', braced'⟩ := r'
  subst hslot hchars
  exact ⟨rfl, rfl⟩

/-- A text in braces with no closing brace inside is a reference, or its open brace is stray. -/
theorem braces_cases
    {inside : List Char}
    (hinside : '\x7d' ∉ inside) :
    (∃ r : Written, r.chars = '\x7b' :: (inside ++ ['\x7d'])) ∨
    FirstStray ('\x7b' :: (inside ++ ['\x7d'])) [] (inside ++ ['\x7d']) := by
  by_cases hbegins : BeginsReference (inside ++ ['\x7d'])
  · obtain ⟨r, rest, htext⟩ := hbegins
    obtain ⟨_, slot, @⟨a, w, b, _, ha, hw, hb⟩⟩ := r
    have hinner : '\x7d' ∉ a ++ w ++ b := by
      have hword : '\x7d' ∉ w := hw.notMem (by decide) (by decide) (by decide)
      simp [ha.notMem (c := '\x7d') (by decide), hb.notMem (c := '\x7d') (by decide), hword]
    -- Both ways to cut the text end at its first closing brace.
    have hcut : inside ++ '\x7d' :: [] = (a ++ w ++ b) ++ '\x7d' :: rest := by
      simpa using htext
    have hfirst := cutFirst_append hinside []
    rw [hcut, cutFirst_append hinner rest] at hfirst
    cases hfirst
    exact .inl ⟨⟨_, slot, .braces ha hw hb⟩, rfl⟩
  · exact .inr ⟨rfl, hbegins, fun u v _ _ => Nat.zero_le _⟩

theorem Plain.append_inj
    {t t' : Plain}
    {u u' : List Char}
    (h : t.chars ++ '\x7b' :: u = t'.chars ++ '\x7b' :: u') :
    t = t' ∧ u = u' := by
  have hcut := cutFirst_append t.brace_notMem u
  rw [h, cutFirst_append t'.brace_notMem u'] at hcut
  simp only [Option.some.injEq, Prod.mk.injEq] at hcut
  obtain ⟨chars, hchars⟩ := t
  obtain ⟨chars', hchars'⟩ := t'
  obtain ⟨rfl, rfl⟩ := hcut
  exact ⟨rfl, rfl⟩

end Braces

namespace Layout

theorem notMem_replaced
    {form : Written → List Char}
    (hform : ∀ r, '\x7b' ∉ form r)
    (l : Layout) :
    '\x7b' ∉ l.replaced form := by
  induction l with
  | last t => exact t.brace_notMem
  | more t r rest ih => simp [replaced, t.brace_notMem, hform r, ih]

/-- Replacing the references adds no characters but those of the replacements. -/
theorem mem_replaced
    {form : Written → List Char}
    {c : Char}
    {l : Layout}
    (h : c ∈ l.replaced form) :
    c ∈ l.text ∨ ∃ r, c ∈ form r := by
  induction l with
  | last t => exact .inl h
  | more t r rest ih =>
      simp only [replaced, List.mem_append] at h
      rcases h with ht | hr | hrest
      · exact .inl (List.mem_append_left _ ht)
      · exact .inr ⟨r, hr⟩
      · rcases ih hrest with htext | hform
        · exact .inl (List.mem_append_right _ (List.mem_append_right _ htext))
        · exact .inr hform

theorem text_more
    (t : Plain)
    (r : Written)
    (rest : Layout) :
    (more t r rest).text = t.chars ++ (r.chars ++ rest.text) := by
  rfl

/-- Every open brace of a layout begins one of its references. -/
theorem wellBraced_text
    (l : Layout) :
    WellBraced l.text := by
  induction l with
  | last t =>
      have hplain := (wellBraced_append_iff t.brace_notMem []).mpr (by simp [WellBraced])
      rwa [List.append_nil] at hplain
  | more t r rest ih =>
      obtain ⟨inside, hinside, hplain⟩ := r.exists_inside
      rw [text_more, wellBraced_append_iff t.brace_notMem, hinside, List.cons_append,
        wellBraced_cons_iff, wellBraced_append_iff hplain]
      refine ⟨fun _ => ⟨r, rest.text, ?_⟩, ih⟩
      rw [hinside, List.cons_append]

/-- A text has at most one layout. -/
theorem text_injective :
    Function.Injective text := by
  intro l l' h
  induction l generalizing l' with
  | last t =>
      cases l' with
      | last t' =>
          obtain ⟨chars, hchars⟩ := t
          obtain ⟨chars', hchars'⟩ := t'
          have heq : chars = chars' := h
          subst heq
          rfl
      | more t' r' rest' =>
          obtain ⟨inside, hinside, _⟩ := r'.exists_inside
          have heq : t.chars = t'.chars ++ (r'.chars ++ rest'.text) := h
          have hmem := t.brace_notMem
          rw [heq, hinside] at hmem
          simp at hmem
  | more t r rest ih =>
      obtain ⟨inside, hinside, _⟩ := r.exists_inside
      cases l' with
      | last t' =>
          have heq : t.chars ++ (r.chars ++ rest.text) = t'.chars := h
          have hmem := t'.brace_notMem
          rw [← heq, hinside] at hmem
          simp at hmem
      | more t' r' rest' =>
          obtain ⟨inside', hinside', _⟩ := r'.exists_inside
          rw [text_more, text_more] at h
          have hlead := h
          rw [hinside, hinside', List.cons_append, List.cons_append] at hlead
          obtain ⟨rfl, _⟩ := Plain.append_inj hlead
          obtain ⟨rfl, hrest⟩ := Written.append_inj (List.append_cancel_left h)
          rw [ih hrest]

/-- A stray brace behind a layout is the first one. -/
theorem firstStray_of_text
    (l : Layout)
    {after : List Char}
    (hstray : ¬ BeginsReference after) :
    FirstStray (l.text ++ '\x7b' :: after) l.text after where
  text_eq := rfl
  stray := hstray
  first u v heq hv := by
    by_contra hlt
    rcases List.append_eq_append_iff.mp heq with ⟨rest, hu, _⟩ | ⟨rest, hl, hrest⟩
    · rw [hu, List.length_append] at hlt
      omega
    · cases rest with
      | nil =>
          rw [hl, List.append_nil] at hlt
          omega
      | cons c rest =>
          -- A stray brace inside the layout would begin a reference.
          rw [List.cons_append, List.cons.injEq] at hrest
          obtain ⟨rfl, rfl⟩ := hrest
          exact hv ((l.wellBraced_text u rest hl).append _)

/-- A text has a layout, or it has one up to its first stray brace. -/
theorem exists_layout
    (cs : List Char) :
    (∃ l : Layout, l.text = cs) ∨
    ∃ (l : Layout) (after : List Char), FirstStray cs l.text after := by
  -- The induction is on the length, since a reference is passed over as a whole.
  induction hlength : cs.length using Nat.strong_induction_on generalizing cs with
  | _ n ih =>
      by_cases hmem : '\x7b' ∈ cs
      · obtain ⟨t, after, rfl, ht⟩ := List.eq_append_cons_of_mem hmem
        by_cases hbegins : BeginsReference after
        · obtain ⟨r, rest, hrest⟩ := hbegins
          obtain ⟨inside, hinside, _⟩ := r.exists_inside
          have hshort : rest.length < n := by
            have hlengths := congrArg List.length hrest
            simp only [hinside, List.length_append, List.length_cons] at hlengths hlength
            omega
          rw [hrest]
          rcases ih rest.length hshort rest rfl with ⟨l, rfl⟩ | ⟨l, after', hfirst⟩
          · exact .inl ⟨.more ⟨t, ht⟩ r l, rfl⟩
          · refine .inr ⟨.more ⟨t, ht⟩ r l, after', ?_⟩
            have hall := firstStray_of_text (.more ⟨t, ht⟩ r l) hfirst.stray
            rwa [text_more, List.append_assoc, List.append_assoc, ← hfirst.text_eq] at hall
        · exact .inr ⟨.last ⟨t, ht⟩, after, firstStray_of_text (.last ⟨t, ht⟩) hbegins⟩
      · exact .inl ⟨.last ⟨cs, hmem⟩, rfl⟩

end Layout

/-- A text whose open braces all begin references has exactly one layout. -/
theorem existsUnique_layout
    {cs : List Char}
    (h : WellBraced cs) :
    ∃! l : Layout, l.text = cs := by
  rcases Layout.exists_layout cs with ⟨l, rfl⟩ | ⟨l, after, hfirst⟩
  · exact ⟨l, rfl, fun l' hl' => Layout.text_injective hl'⟩
  · exact absurd (h l.text after hfirst.text_eq) hfirst.stray

theorem FirstStray.unique
    {cs before after before' after' : List Char}
    (h : FirstStray cs before after)
    (h' : FirstStray cs before' after') :
    before = before' ∧ after = after' := by
  have hlength : before.length = before'.length :=
    Nat.le_antisymm (h.first _ _ h'.text_eq h'.stray) (h'.first _ _ h.text_eq h.stray)
  have hparts := List.append_inj (h.text_eq.symm.trans h'.text_eq) hlength
  exact ⟨hparts.1, (List.cons.inj hparts.2).2⟩

section Scanning

open Peg

/-- The parts of a template are read from a place to another one.  They have the given pieces, and
the record of failed rules has the given property afterwards. -/
def Parts (p : Place) (ps : List Piece) (q : Place) (holds : Attempts → Prop) : Prop :=
  ∀ fuel a,
    p.rest.length < fuel →
    a.position ≤ p.position →
    ∃ parts b,
      repeated part fuel p a = (some (parts, q), b) ∧
      parts.flatten = ps ∧
      holds b

variable {cs : List Char}
variable {position : Nat}
variable {ps : List Piece}
variable {q : Place}
variable {holds : Attempts → Prop}

/-- A part that is read moves on. -/
theorem Parts.cons
    {p p' : Place}
    {found : List Piece}
    (hpart : ∀ a, a.position ≤ p.position →
      ∃ b, part p a = (some (found, p'), b) ∧ b.position ≤ p'.position)
    (hshort : p'.rest.length < p.rest.length)
    (h : Parts p' ps q holds) :
    Parts p (found ++ ps) q holds := by
  intro fuel a hfuel ha
  obtain ⟨fuel, rfl⟩ : ∃ n, fuel = n + 1 := ⟨fuel - 1, by omega⟩
  obtain ⟨b, hrun, hb⟩ := hpart a ha
  obtain ⟨parts, b', hrest, hparts, hholds⟩ := h fuel b (by omega) hb
  exact ⟨found :: parts, b', repeated_of_some hrun hrest, by simp [hparts], hholds⟩

/-- Nothing more is read where no part starts. -/
theorem parts_of_none
    {p : Place}
    (hpart : ∀ a, a.position ≤ p.position → ∃ b, part p a = (none, b) ∧ holds b) :
    Parts p [] p holds := by
  intro fuel a hfuel ha
  obtain ⟨fuel, rfl⟩ : ∃ n, fuel = n + 1 := ⟨fuel - 1, by omega⟩
  obtain ⟨b, hrun, hholds⟩ := hpart a ha
  exact ⟨[], b, repeated_of_none fuel hrun, rfl, hholds⟩

/-- Plain text is read up to the next open brace. -/
theorem Parts.plain
    {t : List Char}
    (ht : '\x7b' ∉ t)
    (hcs : ∀ c ∈ cs.head?, c = '\x7b')
    (h : Parts ⟨cs, position + byteLength t⟩ ps q holds) :
    Parts ⟨t ++ cs, position⟩ (t.map .char ++ ps) q holds := by
  cases t with
  | nil =>
      exact h
  | cons c t =>
      rw [List.mem_cons, not_or] at ht
      have hne : ∀ after, c :: t ++ cs ≠ '\x7b' :: after := by
        intro after heq
        exact ht.1 (List.cons.inj heq).1.symm
      have hclass : ∀ d ∈ c :: t, (d != '\x7b') = true := by
        intro d hd
        rw [bne_iff_ne]
        rintro rfl
        exact (List.mem_cons.mp hd).elim ht.1 ht.2
      have hstop : ∀ d ∈ cs.head?, (d != '\x7b') = false := by
        intro d hd
        simp [hcs d hd]
      have htake := takeWhile_append_of_head hclass hstop
      have hdrop := dropWhile_append_of_head hclass hstop
      refine Parts.cons (fun a ha => ?_) (by simp) h
      refine ⟨a.fail .reference position (a.countAt position), ?_, ?_⟩
      · have hreference : Slot.referenceRule ⟨c :: t ++ cs, position⟩ a = _ :=
          Slot.referenceRule_of_ne hne
        rw [part, orElse_of_none (bind_of_none _ hreference)]
        apply rule_of_some
        apply map_of_some
        rw [run1_of_cons htake, hdrop]
        rfl
      · rw [Attempts.position_fail]
        exact Nat.max_le.mpr ⟨Nat.le_add_right_of_le ha, Nat.le_add_right _ _⟩

/-- A reference is read as a whole. -/
theorem Parts.written
    (r : Written)
    (h : Parts ⟨cs, position + byteLength r.chars⟩ ps q holds) :
    Parts ⟨r.chars ++ cs, position⟩ (.slot r.slot :: ps) q holds := by
  obtain ⟨inside, hinside, _⟩ := r.exists_inside
  have htext : '\x7b' :: (inside ++ cs) = r.chars ++ cs := by
    rw [hinside, List.cons_append]
  have hscan : Slot.scan? (inside ++ cs) = some (r.slot, cs) :=
    Slot.scan?_eq_some_iff.mpr ⟨r.chars, r.braced, htext⟩
  change Parts _ ([.slot r.slot] ++ ps) q holds
  refine Parts.cons (fun a ha => ?_) ?_ h
  · obtain ⟨w, b, hw, hrun, hb⟩ :=
      Slot.exists_referenceRule_of_some (p := ⟨r.chars ++ cs, position⟩) htext.symm ha hscan
    have hinside' := List.append_cancel_right hw
    subst hinside'
    rw [← hinside] at hrun hb
    refine ⟨b, orElse_of_some ?_, Nat.le_of_lt hb⟩
    rw [bind_of_some _ hrun]
    rfl
  · simp [hinside]

theorem Parts.layout
    (l : Layout)
    (hcs : ∀ c ∈ cs.head?, c = '\x7b')
    (h : Parts ⟨cs, position + byteLength l.text⟩ ps q holds) :
    Parts ⟨l.text ++ cs, position⟩ (l.pieces ++ ps) q holds := by
  induction l generalizing position with
  | last t =>
      exact .plain t.brace_notMem hcs h
  | more t r rest ih =>
      obtain ⟨inside, hinside, _⟩ := r.exists_inside
      have hhead : ∀ c ∈ (r.chars ++ (rest.text ++ cs)).head?, c = '\x7b' := by
        simp [hinside]
      rw [Layout.text_more, byteLength_append, byteLength_append, ← Nat.add_assoc,
        ← Nat.add_assoc] at h
      rw [Layout.text_more, List.append_assoc, List.append_assoc, Layout.pieces,
        List.append_assoc, List.cons_append]
      exact .plain t.brace_notMem hhead (.written r (ih h))

/-- No part starts where there is neither a reference nor text. -/
theorem part_of_none
    {p : Place}
    {a b : Attempts}
    (hreference : Slot.referenceRule p a = (none, b))
    (htext : p.rest.takeWhile (· != '\x7b') = []) :
    part p a = (none, b.fail .text p.position (b.countAt p.position)) := by
  rw [part, orElse_of_none (bind_of_none _ hreference)]
  exact rule_of_none .text (map_of_none _ (run1_of_nil htext))

theorem parts_nil
    (position : Nat) :
    Parts ⟨[], position⟩ [] ⟨[], position⟩ fun _ => True := by
  apply parts_of_none
  intro a _
  exact ⟨_, part_of_none (Slot.referenceRule_of_ne (by simp)) rfl, trivial⟩

/-- No part starts at a stray brace, which is put on record. -/
theorem parts_stray
    {after : List Char}
    (hstray : ¬ BeginsReference after)
    (position : Nat) :
    Parts ⟨'\x7b' :: after, position⟩ [] ⟨'\x7b' :: after, position⟩ fun b =>
      b.position = Slot.reportedAt position after := by
  rw [beginsReference_iff, Option.not_isSome_iff_eq_none] at hstray
  apply parts_of_none
  intro a ha
  obtain ⟨b, hreference, hb⟩ :=
    Slot.exists_referenceRule_of_none (p := ⟨'\x7b' :: after, position⟩) rfl ha hstray
  refine ⟨_, part_of_none hreference rfl, ?_⟩
  rw [Attempts.position_fail, hb]
  exact Nat.max_eq_left (Slot.le_reportedAt position after)

/-- The text of a layout is cut into the pieces of the layout. -/
theorem scan_layout
    (l : Layout) :
    scan l.text = .ok l.pieces := by
  have hparts := (parts_nil (0 + byteLength l.text)).layout l (by simp)
  rw [List.append_nil, List.append_nil] at hparts
  obtain ⟨parts, b, hrun, hpieces, -⟩ :=
    hparts (l.text.length + 1) .initial (Nat.lt_succ_self _) (Nat.le_refl 0)
  have hrule : templateRule (l.text.length + 1) ⟨l.text, 0⟩ .initial =
      (some (l.pieces, ⟨[], 0 + byteLength l.text⟩), b) := by
    apply rule_of_some
    rw [bind_of_some _ hrun, bind_of_some _ (endOfText_of_nil rfl), hpieces]
    rfl
  rw [scan, Peg.parse, hrule]
  rfl

/-- The first stray brace is reported. -/
theorem scan_stray
    {text before after : List Char}
    (hfirst : FirstStray text before after) :
    scan text = .error (Slot.reportedAt (byteLength before) after) := by
  rcases Layout.exists_layout text with ⟨l, rfl⟩ | ⟨l, after', hlayout⟩
  · exact absurd (l.wellBraced_text before after hfirst.text_eq) hfirst.stray
  · obtain ⟨rfl, rfl⟩ := hfirst.unique hlayout
    have hparts := (parts_stray hfirst.stray (0 + byteLength l.text)).layout l (by simp)
    rw [← hfirst.text_eq, Nat.zero_add] at hparts
    obtain ⟨parts, b, hrun, -, hb⟩ :=
      hparts (text.length + 1) .initial (Nat.lt_succ_self _) (Nat.le_refl 0)
    have hbody :=
      (bind_of_some (fun parts => do endOfText; pure parts.flatten) hrun).trans
        (bind_of_none _ (endOfText_of_ne_nil (by simp)))
    rw [scan, Peg.parse, templateRule, rule_of_none .template hbody]
    have hle := Slot.le_reportedAt (byteLength l.text) after
    simp only [Except.mapError, Attempts.position_fail, hb, Except.error.injEq]
    omega

end Scanning

section Filling

variable {form : Int64 → List Char}
variable {s : Scope}

theorem fill_char
    (form : Int64 → List Char)
    (s : Scope)
    (c : Char)
    (ps : List Piece) :
    fill form s (.char c :: ps) = (fill form s ps).map (c :: ·) := by
  simp only [fill]
  cases fill form s ps <;> rfl

theorem fill_slot
    (form : Int64 → List Char)
    (s : Scope)
    (slot : Slot)
    (ps : List Piece) :
    fill form s (.slot slot :: ps) =
      (slot.read s).bind fun v => (fill form s ps).map (form v ++ ·) := by
  simp only [fill]
  cases slot.read s with
  | error err => rfl
  | ok v =>
      simp only [Except.bind]
      cases fill form s ps <;> rfl

/-- The parts of a template are replaced one after the other. -/
theorem fill_append
    (form : Int64 → List Char)
    (s : Scope)
    (ps qs : List Piece) :
    fill form s (ps ++ qs) =
      (fill form s ps).bind fun u => (fill form s qs).map (u ++ ·) := by
  induction ps with
  | nil =>
      simp only [List.nil_append, fill, Except.bind]
      cases fill form s qs <;> rfl
  | cons p ps ih =>
      cases p with
      | char c =>
          rw [List.cons_append, fill_char, fill_char, ih]
          cases fill form s ps with
          | error err => rfl
          | ok u => cases fill form s qs <;> rfl
      | slot slot =>
          rw [List.cons_append, fill_slot, fill_slot, ih]
          cases slot.read s with
          | error err => rfl
          | ok v =>
              cases fill form s ps with
              | error err => rfl
              | ok u => cases fill form s qs <;> simp [Except.bind, Except.map]

theorem fill_plain
    (form : Int64 → List Char)
    (s : Scope)
    (t : List Char)
    (ps : List Piece) :
    fill form s (t.map .char ++ ps) = (fill form s ps).map (t ++ ·) := by
  induction t with
  | nil =>
      simp only [List.map_nil, List.nil_append]
      cases fill form s ps <;> rfl
  | cons c t ih =>
      rw [List.map_cons, List.cons_append, fill_char, ih]
      cases fill form s ps <;> rfl

theorem fill_more
    (form : Int64 → List Char)
    (s : Scope)
    (t : Plain)
    (r : Written)
    (rest : Layout) :
    fill form s (Layout.more t r rest).pieces =
      (r.slot.read s).bind fun v =>
        (fill form s rest.pieces).map fun cs => t.chars ++ (form v ++ cs) := by
  rw [Layout.pieces, fill_plain, fill_slot]
  cases r.slot.read s with
  | error err => rfl
  | ok v => cases fill form s rest.pieces <;> rfl

/-- If all references can be read, values stand in their places. -/
theorem fill_layout_of_reads
    {l : Layout}
    (value : Written → Int64)
    (hread : ∀ r ∈ l.references, r.slot.read s = .ok (value r)) :
    fill form s l.pieces = .ok (l.replaced fun r => form (value r)) := by
  induction l with
  | last t =>
      have hplain := fill_plain form s t.chars []
      simpa [fill, Except.map, Layout.pieces, Layout.replaced] using hplain
  | more t r rest ih =>
      rw [Layout.references, List.forall_mem_cons] at hread
      rw [fill_more, hread.1, ih hread.2]
      rfl

/-- The leftmost reference that cannot be read decides the error. -/
theorem fill_layout_of_error
    {l : Layout}
    {rs rs' : List Written}
    {r : Written}
    {err : EvalError}
    (hreferences : l.references = rs ++ r :: rs')
    (hread : ∀ r' ∈ rs, ∃ v, r'.slot.read s = .ok v)
    (herror : r.slot.read s = .error err) :
    fill form s l.pieces = .error err := by
  induction l generalizing rs with
  | last t =>
      simp [Layout.references] at hreferences
  | more t r' rest ih =>
      rw [fill_more]
      cases rs with
      | nil =>
          cases hreferences
          rw [herror]
          rfl
      | cons first rs =>
          rw [Layout.references, List.cons_append, List.cons.injEq] at hreferences
          rw [List.forall_mem_cons] at hread
          obtain ⟨rfl, hrest⟩ := hreferences
          obtain ⟨⟨v, hv⟩, htail⟩ := hread
          rw [hv, ih hrest htail]
          rfl

theorem substitute_of_scan
    {text : String}
    {ps : List Piece}
    (hscan : scan text.toList = .ok ps) :
    substitute form s text = (fill form s ps).map String.ofList := by
  rw [substitute, hscan]
  change (fill form s ps).bind (fun cs => .ok (String.ofList cs)) = _
  cases fill form s ps <;> rfl

theorem substitute_of_scan_error
    {text : String}
    {position : Nat}
    (hscan : scan text.toList = .error position) :
    substitute form s text =
      .error (.malformedReference text ⟨position, byteLength text.toList⟩) := by
  rw [substitute, hscan]
  rfl

/-- Where a text has a layout, the values are filled into it. -/
theorem substitute_layout
    {l : Layout}
    {text : String}
    (htext : l.text = text.toList) :
    substitute form s text = (fill form s l.pieces).map String.ofList := by
  apply substitute_of_scan
  rw [← htext]
  exact scan_layout l

/-- A text without an open brace is kept. -/
theorem substitute_of_notMem
    {text : String}
    (htext : '\x7b' ∉ text.toList) :
    substitute form s text = .ok text := by
  have hlayout : (Layout.last ⟨text.toList, htext⟩).text = text.toList := rfl
  have hfill :
      fill form s (Layout.last ⟨text.toList, htext⟩).pieces = .ok text.toList :=
    fill_layout_of_reads (fun _ => 0) (by simp [Layout.references])
  rw [substitute_layout hlayout, hfill]
  simp [Except.map]

/-- A reference at the start of a text that has no other one is replaced by the value of its
cell. -/
theorem substitute_written_append
    (form : Int64 → List Char)
    (s : Scope)
    (r : Written)
    {t : List Char}
    (ht : '\x7b' ∉ t) :
    substitute form s (String.ofList (r.chars ++ t)) =
      (r.slot.read s).map fun v => String.ofList (form v ++ t) := by
  have hfill : fill form s (Layout.last ⟨t, ht⟩).pieces = .ok t :=
    fill_layout_of_reads (fun _ => 0) (by simp [Layout.references])
  have hlayout :
      (Layout.more ⟨[], List.not_mem_nil⟩ r (.last ⟨t, ht⟩)).text =
        (String.ofList (r.chars ++ t)).toList := by
    rw [String.toList_ofList]
    rfl
  rw [substitute_layout hlayout, fill_more, hfill]
  cases r.slot.read s <;> rfl

/-- The first stray brace decides the error. -/
theorem substitute_stray
    {text : String}
    {before after : List Char}
    (hfirst : FirstStray text.toList before after) :
    substitute form s text =
      .error (.malformedReference text
        ⟨Slot.reportedAt (byteLength before) after, byteLength text.toList⟩) := by
  exact substitute_of_scan_error (scan_stray hfirst)

end Filling

end Template
end GraphMachine
