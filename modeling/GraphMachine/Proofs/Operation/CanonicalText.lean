import GraphMachine.Proofs.Operation.Moves
import GraphMachine.Proofs.Operation.ShortForms

/-!
# Canonical texts of operations

Every operation has a canonical text, which names all parts of the operation and has no blanks but
the one before the expression of a store.  An operation that was read from some text has parts of a
certain form, `Operation.Readable`: its expressions are trimmed and not empty, its names are
identifiers, and an expression to be written does not look like a quoted text.  Exactly the
operations of this form are read back from their canonical texts.

The argument of a call is cut, trimmed and unquoted before it is taken.  On a canonical text none of
these steps takes anything away from a part, whatever characters are in it.
-/

namespace GraphMachine

open Text

/-- Only identifiers are read as names. -/
theorem Target.wellNamed_of_parse
    {text : String}
    {r : Reference}
    (h : parse text = .ok r) :
    r.WellNamed := by
  obtain ⟨w, -, hw⟩ := parse_eq_ok_iff_writes.mp h
  cases hw with
  | nothing => trivial
  | name hw => simpa [Reference.WellNamed] using hw
  | braces _ hw _ =>
      cases hw with
      | current => trivial
      | unsigned => trivial
      | plus => trivial
      | minus => trivial
      | named hw => simpa [Reference.WellNamed] using hw

namespace Operation

/-- As many arrows as a move has steps, to the right or to the left. -/
def arrowsOf (delta : Int64) : List Char :=
  List.replicate delta.toInt.natAbs (if 0 ≤ delta.toInt then '>' else '<')

def target? : Operation → Option Reference
  | set target _ => some target
  | increment target => some target
  | decrement target => some target
  | _ => none

/-- The canonical text of an operation, in which the destination is written as given. -/
def textWith (x : String) : Operation → String
  | set _ expression => Keyword.set.call (x ++ ", " ++ expression)
  | increment _ => Keyword.increment.call x
  | decrement _ => Keyword.decrement.call x
  | output (.template template) => Keyword.output.call ("\"" ++ template ++ "\"")
  | output (.value expression) => Keyword.output.call expression
  | check none => Keyword.check.name
  | check (some condition) => Keyword.check.call condition
  | shift delta => Keyword.shift.call (String.ofList (arrowsOf delta))

def text (op : Operation) : String :=
  op.textWith (op.target?.elim "" Reference.text)

/-- An expression as it is read: trimmed and not empty. -/
structure IsExpression (expression : String) : Prop where
  trimmed : Trimmed expression.toList
  ne_nil : expression.toList ≠ []

/-- What is known of an operation that was read. -/
def Readable : Operation → Prop
  | set target expression => target.WellNamed ∧ IsExpression expression
  | increment target => target.WellNamed
  | decrement target => target.WellNamed
  | output (.template _) => True
  | output (.value expression) =>
      IsExpression expression ∧ unquote? expression.toList = none
  | check none => True
  | check (some condition) => IsExpression condition
  | shift _ => True

section Reading

variable {argument : List Char}
variable {op : Operation}

theorem isExpression_of_trim
    {c : Char}
    {cs : List Char}
    (h : trim argument = c :: cs) :
    IsExpression (String.ofList (c :: cs)) where
  trimmed := by
    rw [String.toList_ofList, ← h]
    exact trimmed_trim argument
  ne_nil := by
    simp

theorem readable_of_parseSet
    (h : parseSet argument = .ok op) :
    op.Readable := by
  unfold parseSet at h
  cases hcut : cutFirst ',' argument with
  | none =>
      cases htrim : trim argument with
      | nil => simp [hcut, htrim] at h
      | cons c cs =>
          simp only [hcut, htrim] at h
          cases h
          exact ⟨trivial, isExpression_of_trim htrim⟩
  | some parts =>
      obtain ⟨target, expression⟩ := parts
      cases htarget : Target.parse (String.ofList target) with
      | error err => simp [hcut, htarget] at h
      | ok r =>
          cases htrim : trim expression with
          | nil => simp [hcut, htarget, htrim] at h
          | cons c cs =>
              simp only [hcut, htarget, htrim] at h
              cases h
              exact ⟨Target.wellNamed_of_parse htarget, isExpression_of_trim htrim⟩

theorem exists_of_parseTarget
    {build : Reference → Operation}
    (h : parseTarget build argument = .ok op) :
    ∃ r, op = build r ∧ r.WellNamed := by
  unfold parseTarget at h
  cases hparse : Target.parse (String.ofList argument) with
  | error err =>
      rw [hparse] at h
      cases h
  | ok r =>
      rw [hparse] at h
      cases h
      exact ⟨r, rfl, Target.wellNamed_of_parse hparse⟩

theorem readable_parseOutput
    (argument : List Char) :
    (output (parseOutput argument)).Readable := by
  unfold parseOutput
  cases hquotes : unquote? (trim argument) with
  | some template => simp only [hquotes, Readable]
  | none =>
      simp only [hquotes]
      cases htrim : trim argument with
      | nil => exact ⟨⟨by decide, by decide⟩, by decide⟩
      | cons c cs =>
          refine ⟨isExpression_of_trim htrim, ?_⟩
          rwa [String.toList_ofList, ← htrim]

theorem readable_parseCheck
    (argument : List Char) :
    (check (parseCheck argument)).Readable := by
  unfold parseCheck
  cases htrim : trim argument with
  | nil => trivial
  | cons c cs => exact isExpression_of_trim htrim

theorem readable_of_ofCall
    {keyword : Keyword}
    (h : ofCall keyword argument = .ok op) :
    op.Readable := by
  cases keyword with
  | set => exact readable_of_parseSet h
  | increment =>
      obtain ⟨r, rfl, hr⟩ := exists_of_parseTarget h
      exact hr
  | decrement =>
      obtain ⟨r, rfl, hr⟩ := exists_of_parseTarget h
      exact hr
  | output =>
      cases h
      exact readable_parseOutput argument
  | check =>
      cases h
      exact readable_parseCheck argument
  | shift =>
      unfold ofCall at h
      cases hshift : parseShift argument with
      | error err => simp [hshift] at h
      | ok delta =>
          simp only [hshift] at h
          cases h
          trivial

/-- What is read has parts of the form in which they are read. -/
theorem readable_of_parse
    {text : String}
    (h : parse text = .ok op) :
    op.Readable :=
  readable_of_ofCall (ofCall_of_parse h)

end Reading

section Writing

/-- An expression is more than white space, and trimming leaves it as it is. -/
theorem IsExpression.exists_trim
    {expression : String}
    (h : IsExpression expression) :
    ∃ c cs, trim expression.toList = c :: cs ∧ String.ofList (c :: cs) = expression := by
  obtain ⟨c, cs, hlist⟩ := List.exists_cons_of_ne_nil h.ne_nil
  refine ⟨c, cs, ?_, ?_⟩
  · rw [h.trimmed.trim_eq, hlist]
  · rw [← hlist, String.ofList_toList]

theorem parseOutput_of_isExpression
    {expression : String}
    (h : IsExpression expression)
    (hquotes : unquote? expression.toList = none) :
    parseOutput expression.toList = .value expression := by
  obtain ⟨c, cs, htrim, hself⟩ := h.exists_trim
  have hnone : unquote? (c :: cs) = none := by
    rwa [← htrim, h.trimmed.trim_eq]
  simp only [parseOutput, htrim, hnone, hself]

theorem parseCheck_of_isExpression
    {condition : String}
    (h : IsExpression condition) :
    parseCheck condition.toList = some condition := by
  obtain ⟨c, cs, htrim, hself⟩ := h.exists_trim
  simp only [parseCheck, htrim, hself]

theorem netMoves_arrowsOf
    (delta : Int64) :
    netMoves (arrowsOf delta) = delta.toInt := by
  have hcount (c d : Char) :
      (List.replicate delta.toInt.natAbs c).count d = if c = d then delta.toInt.natAbs else 0 := by
    simp [List.count_replicate]
  unfold arrowsOf netMoves
  split
  · rw [hcount, hcount, if_pos rfl, if_neg (by decide)]
    omega
  · rw [hcount, hcount, if_neg (by decide), if_pos rfl]
    omega

/-- Moves are read back from their arrows, also the one that no opposite word undoes. -/
theorem parseShift_arrowsOf
    (delta : Int64) :
    parseShift (arrowsOf delta) = .ok delta := by
  have hmoves : (arrows (arrowsOf delta)).find? (fun c => !isMove c) = none := by
    rw [List.find?_eq_none]
    intro c hc
    have hrepeated := List.eq_of_mem_replicate (mem_of_mem_arrows hc)
    rw [hrepeated]
    split <;> decide
  rw [parseShift_eq, hmoves, netMoves_arrowsOf, Int64.ofInt_toInt, Option.elim_none]

theorem parse_template
    (template : String) :
    parse (Keyword.output.call ("\"" ++ template ++ "\"")) =
      .ok (.output (.template template)) := by
  have hquotes := parseOutput_of_quotes template.toList
  rw [String.ofList_toList] at hquotes
  rw [parse_call, ofCall]
  simpa using hquotes

/-- A canonical text is read back, however the destination is written. -/
theorem parse_textWith
    {op : Operation}
    {x : String}
    (h : op.Readable)
    (hx : ∀ r ∈ op.target?, Target.parse x = .ok r) :
    parse (op.textWith x) = .ok op := by
  cases op with
  | set target expression =>
      obtain ⟨-, htrimmed, hne⟩ := h
      have hset := parseSet_of_target (hx target rfl) htrimmed hne
      rw [textWith, parse_call, ofCall]
      simpa using hset
  | increment target =>
      rw [textWith, parse_call, ofCall, parseTarget, String.ofList_toList, hx target rfl]
      rfl
  | decrement target =>
      rw [textWith, parse_call, ofCall, parseTarget, String.ofList_toList, hx target rfl]
      rfl
  | output printed =>
      cases printed with
      | template template => exact parse_template template
      | value expression =>
          rw [textWith, parse_call, ofCall, parseOutput_of_isExpression h.1 h.2]
  | check condition =>
      cases condition with
      | none =>
          rw [textWith]
          rfl
      | some condition => rw [textWith, parse_call, ofCall, parseCheck_of_isExpression h]
  | shift delta =>
      rw [textWith, parse_call, ofCall, String.toList_ofList, parseShift_arrowsOf]

theorem wellNamed_of_readable
    {op : Operation}
    {r : Reference}
    (h : op.Readable)
    (hr : r ∈ op.target?) :
    r.WellNamed := by
  cases op with
  | set target expression =>
      cases hr
      exact h.1
  | increment target =>
      cases hr
      exact h
  | decrement target =>
      cases hr
      exact h
  | output printed => cases hr
  | check condition => cases hr
  | shift delta => cases hr

theorem parse_text_of_readable
    {op : Operation}
    (h : op.Readable) :
    parse op.text = .ok op := by
  apply parse_textWith h
  intro r hr
  rw [Option.mem_def.mp hr, Option.elim_some, Target.parse_eq_ok_iff_writes]
  exact ⟨_, padded_self _, Reference.writes_text (wellNamed_of_readable h hr)⟩

end Writing

/-- Operations are read back from their canonical texts.  Every operation that is read from some
text is read from its canonical text, too, and it may be written there with any text of its
destination.  Every text in double quotes, whatever characters it has, is read as this template. -/
theorem canonical_text_read_back :
    (∀ (source : String) (op : Operation),
      parse source = .ok op →
      parse op.text = .ok op ∧
      ∀ x : String,
        (∀ r ∈ op.target?, Target.parse x = .ok r) →
        parse (op.textWith x) = .ok op) ∧
    ∀ template : String,
      parse ("OUTPUT(\"" ++ template ++ "\")") = .ok (.output (.template template)) := by
  refine ⟨?_, ?_⟩
  · intro source op hparse
    have hreadable := readable_of_parse hparse
    exact ⟨parse_text_of_readable hreadable, fun x hx => parse_textWith hreadable hx⟩
  · intro template
    have hcall :
        "OUTPUT(\"" ++ template ++ "\")" = Keyword.output.call ("\"" ++ template ++ "\"") := by
      apply String.toList_inj.mp
      simp [Keyword.call, Keyword.name]
    rw [hcall]
    exact parse_template template

/-- A store with a second comma in its expression, a text with a quote, a parenthesis, a comma and a
brace in it, and arrows in both directions. -/
theorem crowded_texts_read_back :
    (parse "SET( x\t,, y )" = .ok (.set (.named "x") ", y") ∧
      (set (.named "x") ", y").text = "SET(\x7bx\x7d, , y)" ∧
      parse "SET(\x7bx\x7d, , y)" = .ok (.set (.named "x") ", y") ∧
      parse "SET(x, , y)" = .ok (.set (.named "x") ", y")) ∧
    (parse " OUTPUT ('\"(a), \x7b)' )" = .ok (.output (.template "\"(a), \x7b)")) ∧
      parse "OUTPUT(\"\"(a), \x7b)\")" = .ok (.output (.template "\"(a), \x7b)"))) ∧
    (parse "SHIFT('< <> <')" = .ok (.shift (-2)) ∧
      parse "SHIFT(<<)" = .ok (.shift (-2))) := by
  obtain ⟨hback, -⟩ := canonical_text_read_back
  have hstore : parse "SET( x\t,, y )" = .ok (.set (.named "x") ", y") := by
    decide +kernel
  have htemplate :
      parse " OUTPUT ('\"(a), \x7b)' )" = .ok (.output (.template "\"(a), \x7b)")) := by
    decide +kernel
  have hmove : parse "SHIFT('< <> <')" = .ok (.shift (-2)) := by
    decide +kernel
  obtain ⟨hbraces, hbare⟩ := hback _ _ hstore
  refine ⟨⟨hstore, by decide, hbraces, hbare "x" ?_⟩, ⟨htemplate, (hback _ _ htemplate).1⟩, hmove,
    (hback _ _ hmove).1⟩
  rintro r ⟨⟩
  decide +kernel

end Operation
end GraphMachine
