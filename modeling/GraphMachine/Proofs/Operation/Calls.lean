import GraphMachine.Operation.Parser
import GraphMachine.Proofs.Text.Splitting

/-!
# Calls

The text of an operation is a call: a keyword and an argument in parentheses, which may be left out,
with blanks around both.  The argument may be any text, also one with parentheses, blanks and line
ends in it.

`Call.Layout` is a call with its blanks.  A text has at most one layout, and exactly the texts that
have one are read as calls:

* a text without a layout is malformed;
* a layout with another keyword than the six of the operations is unsupported;
* everything else that can go wrong is about the argument.
-/

namespace GraphMachine

open Text

namespace Call

/-- A call with the blanks in it. -/
@[ext] structure Layout where
  lead : List Char
  keyword : List Char
  gap : List Char
  /-- The argument and the blanks after its parentheses. -/
  applied : Option (List Char × List Char)
  blanks_lead : Blanks lead
  isWord_keyword : IsWord Char.isAlpha keyword
  blanks_gap : Blanks gap
  blanks_trail : ∀ argument trail, applied = some (argument, trail) → Blanks trail

namespace Layout

/-- The argument in its parentheses and the blanks after them. -/
def ending (l : Layout) : List Char :=
  match l.applied with
  | none => []
  | some (argument, trail) => '(' :: (argument ++ ')' :: trail)

def text (l : Layout) : List Char :=
  l.lead ++ (l.keyword ++ (l.gap ++ l.ending))

/-- The argument of a call, which is empty if there are no parentheses. -/
def argument (l : Layout) : List Char :=
  match l.applied with
  | none => []
  | some (argument, _) => argument

theorem argument_subset
    (l : Layout) :
    l.argument ⊆ l.text := by
  intro c hc
  cases happlied : l.applied with
  | none =>
      simp [argument, happlied] at hc
  | some parts =>
      have hmem : c ∈ parts.1 := by
        simpa only [argument, happlied] using hc
      simp [text, ending, happlied, hmem]

theorem isWordChar_keyword
    (l : Layout) :
    ∀ c ∈ l.keyword, isWordChar c = true := by
  refine l.isWord_keyword.isWordChar fun c hc => ?_
  simp [isWordChar, Char.isAlphanum, hc]

theorem keyword_ne_nil
    (l : Layout) :
    l.keyword ≠ [] := by
  intro hnil
  have hword := l.isWord_keyword
  rw [hnil] at hword
  exact hword

theorem head_keyword
    (l : Layout)
    (rest : List Char) :
    ∀ c ∈ (l.keyword ++ rest).head?, isBlank c = false := by
  intro c hc
  rw [List.head?_append_of_ne_nil _ l.keyword_ne_nil] at hc
  exact isBlank_of_isWordChar (l.isWordChar_keyword c (List.mem_of_mem_head? hc))

theorem head_ending
    (l : Layout) :
    ∀ c ∈ l.ending.head?, c = '(' := by
  unfold ending
  cases l.applied with
  | none => simp
  | some parts => simp [eq_comm]

theorem head_ending_isBlank
    (l : Layout) :
    ∀ c ∈ l.ending.head?, isBlank c = false := by
  intro c hc
  rw [l.head_ending c hc]
  decide

theorem stops_after_keyword
    (l : Layout) :
    Stops (l.gap ++ l.ending) := by
  apply l.blanks_gap.gaps.stops_append
  intro c hc
  rw [l.head_ending c hc]
  decide

/-- Each part of a call ends where it has to, so there is only one way to take the text apart. -/
theorem text_injective
    {l l' : Layout}
    (h : l.text = l'.text) :
    l = l' := by
  obtain ⟨hlead, h⟩ :=
    append_inj_of_head l.blanks_lead (l.head_keyword _) l'.blanks_lead (l'.head_keyword _) h
  obtain ⟨hkeyword, h⟩ :=
    append_inj_of_head l.isWordChar_keyword l.stops_after_keyword l'.isWordChar_keyword
      l'.stops_after_keyword h
  obtain ⟨hgap, h⟩ :=
    append_inj_of_head l.blanks_gap l.head_ending_isBlank l'.blanks_gap l'.head_ending_isBlank h
  refine Layout.ext hlead hkeyword hgap ?_
  unfold ending at h
  cases happlied : l.applied with
  | none =>
      cases happlied' : l'.applied with
      | none => rfl
      | some parts' => simp [happlied, happlied'] at h
  | some parts =>
      cases happlied' : l'.applied with
      | none => simp [happlied, happlied'] at h
      | some parts' =>
          -- The last closing parenthesis is the one before the blanks.
          obtain ⟨argument, trail⟩ := parts
          obtain ⟨argument', trail'⟩ := parts'
          have hclosing := (l.blanks_trail _ _ happlied).notMem (c := ')') (by decide)
          have hclosing' := (l'.blanks_trail _ _ happlied').notMem (c := ')') (by decide)
          simp only [happlied, happlied', List.cons.injEq, true_and] at h
          have hcut := cutLast_append argument hclosing
          rw [h, cutLast_append argument' hclosing'] at hcut
          exact hcut.symm

/-- A call is read back from its text. -/
theorem parse?_text
    (l : Layout) :
    parse? l.text = some ⟨l.keyword, l.argument⟩ := by
  have hlead : skipBlanks l.text = l.keyword ++ (l.gap ++ l.ending) :=
    dropWhile_append_of_head l.blanks_lead (l.head_keyword _)
  have hword : word? Char.isAlpha (l.keyword ++ (l.gap ++ l.ending)) =
      some (l.keyword, l.gap ++ l.ending) :=
    word?_eq_some_iff.mpr ⟨l.isWord_keyword, l.stops_after_keyword, rfl⟩
  have hgap : skipBlanks (l.gap ++ l.ending) = l.ending :=
    dropWhile_append_of_head l.blanks_gap l.head_ending_isBlank
  simp only [parse?, hlead, hword, hgap]
  unfold ending argument
  cases happlied : l.applied with
  | none =>
      rfl
  | some parts =>
      obtain ⟨inside, trail⟩ := parts
      have htrail := l.blanks_trail inside trail happlied
      have hclosing := htrail.notMem (c := ')') (by decide)
      have hall : trail.all isBlank = true := List.all_eq_true.mpr htrail
      simp only [if_true, cutLast_append inside hclosing, hall]

/-- What is read as a call has a layout. -/
theorem exists_of_parse?
    {text : List Char}
    {call : Call}
    (h : parse? text = some call) :
    ∃ l : Layout, l.text = text := by
  obtain ⟨lead, hlead, htext, -⟩ : Skips text (skipBlanks text) := skips_iff.mpr rfl
  unfold parse? at h
  split at h
  · cases h
  · next keyword rest hword =>
      obtain ⟨hkeyword, -, hskipped⟩ := word?_eq_some_iff.mp hword
      obtain ⟨gap, hgap, hrest, -⟩ : Skips rest (skipBlanks rest) := skips_iff.mpr rfl
      have hparts : text = lead ++ (keyword ++ (gap ++ skipBlanks rest)) := by
        rw [← hrest, ← hskipped]
        exact htext
      split at h
      · next hnil =>
          refine ⟨⟨lead, keyword, gap, none, hlead, hkeyword, hgap, by simp⟩, ?_⟩
          rw [hparts, hnil]
          rfl
      · next c inner hcons =>
          split at h
          · next hopen =>
              split at h
              · cases h
              · next inside trail hcut =>
                  split at h
                  · next htrail =>
                      obtain ⟨-, rfl⟩ := cutLast_eq_some_iff.mp hcut
                      have hblanks : Blanks trail := List.all_eq_true.mp htrail
                      refine ⟨⟨lead, keyword, gap, some (inside, trail), hlead, hkeyword, hgap,
                        by simpa using hblanks⟩, ?_⟩
                      rw [hparts, hcons, hopen]
                      rfl
                  · cases h
          · cases h

end Layout

end Call

/-- An error that is about the argument of a call, not about its form or its keyword. -/
def OperationError.aboutArgument : OperationError → Bool
  | invalidArgument _ => true
  | eval _ => true
  | _ => false

theorem Keyword.ofName?_name
    (keyword : Keyword) :
    ofName? keyword.name = some keyword := by
  cases keyword <;> decide

namespace Operation

def argumentOf (text : String) : List Char :=
  (Call.parse? text.toList).elim [] Call.argument

/-- A result of a keyword: one of its operations, or an error about the argument. -/
def IsOf (keyword : Keyword) : Except OperationError Operation → Prop
  | .ok op => op.keyword = keyword
  | .error err => err.aboutArgument = true

section Arguments

theorem isOf_parseSet
    (argument : List Char) :
    IsOf .set (parseSet argument) := by
  unfold parseSet
  cases cutFirst ',' argument with
  | none =>
      cases htrim : trim argument <;> simp [htrim, IsOf, OperationError.aboutArgument, keyword]
  | some parts =>
      obtain ⟨target, expression⟩ := parts
      cases htarget : Target.parse (String.ofList target) with
      | error err =>
          simp [htarget, IsOf, OperationError.aboutArgument]
      | ok r =>
          cases htrim : trim expression <;>
            simp [htarget, htrim, IsOf, OperationError.aboutArgument, keyword]

theorem isOf_parseTarget
    {keyword : Keyword}
    (build : Reference → Operation)
    (hbuild : ∀ r, (build r).keyword = keyword)
    (argument : List Char) :
    IsOf keyword (parseTarget build argument) := by
  unfold parseTarget
  cases Target.parse (String.ofList argument) with
  | error err => rfl
  | ok r => exact hbuild r

theorem aboutArgument_of_sumMoves
    {delta : Int64}
    {moves : List Char}
    {err : OperationError}
    (h : sumMoves delta moves = .error err) :
    err.aboutArgument = true := by
  fun_induction sumMoves delta moves with
  | case1 => cases h
  | case2 _ _ ih => exact ih h
  | case3 _ _ _ ih => exact ih h
  | case4 _ _ _ _ _ _ ih => exact ih h
  | case5 => cases h; rfl

/-- Every argument is read as an operation of the keyword or refused. -/
theorem isOf_ofCall
    (keyword : Keyword)
    (argument : List Char) :
    IsOf keyword (ofCall keyword argument) := by
  cases keyword with
  | set => exact isOf_parseSet argument
  | increment => exact isOf_parseTarget increment (fun _ => rfl) argument
  | decrement => exact isOf_parseTarget decrement (fun _ => rfl) argument
  | output => rfl
  | check => rfl
  | shift =>
      unfold ofCall
      cases hshift : parseShift argument with
      | ok delta => rfl
      | error err => exact aboutArgument_of_sumMoves hshift

end Arguments

section Texts

variable {text : String}

/-- A call is done by its keyword, with its argument. -/
theorem parse_of_layout
    {l : Call.Layout}
    (hl : l.text = text.toList) :
    parse text =
      (Keyword.ofName? (String.ofList l.keyword)).elim
        (.error (.unsupported (String.ofList l.keyword)))
        (fun keyword => ofCall keyword l.argument) := by
  simp only [parse, ← hl, l.parse?_text]
  cases Keyword.ofName? (String.ofList l.keyword) with
  | none => rfl
  | some keyword => rfl

theorem parse_of_keyword
    {l : Call.Layout}
    {keyword : Keyword}
    (hl : l.text = text.toList)
    (hkeyword : keyword.name.toList = l.keyword) :
    parse text = ofCall keyword l.argument := by
  rw [parse_of_layout hl, ← hkeyword, String.ofList_toList, Keyword.ofName?_name, Option.elim_some]

/-- What is read is an operation of its keyword with the argument that is written. -/
theorem ofCall_of_parse
    {op : Operation}
    (h : parse text = .ok op) :
    ofCall op.keyword (argumentOf text) = .ok op := by
  unfold parse at h
  split at h
  · cases h
  · next call hcall =>
      split at h
      · cases h
      · next keyword _ =>
          have hof := isOf_ofCall keyword call.argument
          rw [h] at hof
          obtain rfl : op.keyword = keyword := hof
          rw [argumentOf, hcall]
          exact h

theorem argumentOf_subset
    (text : String) :
    argumentOf text ⊆ text.toList := by
  unfold argumentOf
  cases hcall : Call.parse? text.toList with
  | none => simp
  | some call =>
      obtain ⟨l, hl⟩ := Call.Layout.exists_of_parse? hcall
      rw [← hl, Call.Layout.parse?_text] at hcall
      cases hcall
      rw [← hl]
      exact l.argument_subset

end Texts

/-- Reading an operation never fails because of the output. -/
theorem parse_ne_output
    (text : String) :
    parse text ≠ .error .output := by
  unfold parse
  cases Call.parse? text.toList with
  | none => simp
  | some call =>
      simp only
      cases Keyword.ofName? (String.ofList call.keyword) with
      | none => simp
      | some keyword =>
          intro (h : ofCall keyword call.argument = .error .output)
          have hof := isOf_ofCall keyword call.argument
          rw [h] at hof
          cases hof

end Operation
end GraphMachine
