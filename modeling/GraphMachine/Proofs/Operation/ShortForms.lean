import GraphMachine.Proofs.Operation.Reads
import GraphMachine.Proofs.Reference.Destinations

/-!
# Short and long forms of operations

A count is short for a store of an expression, a test without a condition is short for a test of
the current cell, and an output without an argument is short for an output of the current cell.
The short forms work on the cell itself.  The long forms print its value into an expression, read
the expression and evaluate it, and come to the same end, from every memory and in both modes.

The same holds of the two ways to write a cell: as an expression and as a text.
-/

namespace GraphMachine

open Text

namespace Target

theorem Writes.comma_notMem
    {w : List Char}
    {r : Reference}
    (hw : Writes w r) :
    ',' ∉ w := by
  obtain ⟨slot, hslot, _⟩ := writes_iff.mp hw
  cases hslot with
  | nothing =>
      exact List.not_mem_nil
  | name hw =>
      intro hmem
      exact absurd (hw.isWordChar ',' hmem) (by decide)
  | braces hw =>
      obtain ⟨ha, hinside, hb⟩ := hw
      have hinner := hinside.notMem (c := ',') (by decide) (by decide) (by decide)
      simp [ha.notMem (c := ',') (by decide), hb.notMem (c := ',') (by decide), hinner]

theorem comma_notMem_of_parse
    {text : String}
    {r : Reference}
    (h : parse text = .ok r) :
    ',' ∉ text.toList := by
  obtain ⟨w, hpadded, hw⟩ := parse_eq_ok_iff_writes.mp h
  exact hpadded.notMem (by decide) hw.comma_notMem

/-- A destination that is written at all starts with no white space. -/
theorem Writes.exists_head
    {w : List Char}
    {r : Reference}
    (hw : Writes w r)
    (hne : w ≠ []) :
    ∃ c cs, w = c :: cs ∧ isWhite c = false := by
  cases hw with
  | nothing =>
      exact absurd rfl hne
  | name hw =>
      cases w with
      | nil => exact absurd rfl hne
      | cons c cs => exact ⟨c, cs, rfl, isWhite_of_isWordStart hw.1⟩
  | braces ha hw hb =>
      exact ⟨_, _, rfl, by decide⟩

end Target

section Steps

open Draft (Denotes)
open Template

variable {s : Scope}
variable {maxDepth : Nat}
variable {v : Except EvalError Value}

/-- What stands behind a cell that is changed by one. -/
def byOne (op : ArithOp) : List Char :=
  ' ' :: ((Operator.arith op).symbol.toList ++ [' ', '1'])

theorem brace_notMem_byOne
    (op : ArithOp) :
    '\x7b' ∉ byOne op := by
  cases op <;> decide

/-- A primary that is changed by one is evaluated at a depth of four. -/
theorem evaluate_byOne_of_denotes
    (op : ArithOp)
    {text : String}
    {w : List Char}
    {t : Draft}
    (hresolve : resolve s text = .ok (String.ofList (w ++ byOne op)))
    (hderives : Draft.grammar.Derives 6 0 w t)
    (hdenotes : Denotes s maxDepth 3 v t)
    (hdepth : 4 ≤ maxDepth) :
    evaluate s maxDepth text = v.bind fun a => (Operator.arith op).apply a (.int 1) := by
  have hone : Draft.grammar.Derives 6 0 ['1'] (.integer ['1'] 0) :=
    .leaf (.integer (by decide))
  have hvalue : Denotes s maxDepth 1 (.ok (.int 1)) (.integer ['1'] 0) :=
    Draft.denotes_integer (by decide) (by omega) (Nat.le_refl 1)
  have hgap : Gaps [' '] := by decide
  have hlevel : (Operator.arith op).level + 1 ≤ 6 := by
    cases op <;> decide
  have htext :
      w ++ byOne op = w ++ [' '] ++ (Operator.arith op).symbol.toList ++ [' '] ++ ['1'] := by
    simp [byOne]
  have hboth :
      Draft.grammar.Derives (Operator.arith op).level 0 (w ++ byOne op)
        (.binary (.arith op) t (.integer ['1'] 0)) := by
    rw [htext]
    exact .operation (hderives.lower (by omega)) hgap hgap (hone.lower hlevel)
  have hlow : 1 ≤ (Operator.arith op).level := by
    cases op <;> decide
  exact evaluate_of_denotes hresolve (hboth.lower hlow).sentence
    (hdenotes.binary (.arith op) hvalue) hdepth

/-- A destination that is changed by one, as an expression. -/
theorem evaluate_byOne
    (op : ArithOp)
    {w : List Char}
    {r : Reference}
    (hw : Target.Writes w r)
    (hne : w ≠ [])
    (hdepth : 4 ≤ maxDepth) :
    evaluate s maxDepth (String.ofList (w ++ byOne op)) =
      (r.read s).bind fun a => (Operator.arith op).apply (.int a) (.int 1) := by
  obtain ⟨slot, hslot, hreference⟩ := Target.writes_iff.mp hw
  cases hslot with
  | nothing =>
      exact absurd rfl hne
  | name hname =>
      -- A bare name is kept by the substitution and is read by the evaluator.
      cases hreference
      have hbrace : '\x7b' ∉ (String.ofList (w ++ byOne op)).toList := by
        have hword : '\x7b' ∉ w := fun hmem => absurd (hname.isWordChar _ hmem) (by decide)
        simp [hword, brace_notMem_byOne op]
      have hdenotes :
          Denotes s maxDepth 3 ((s.named (String.ofList w)).map .int) (.ident w 0) :=
        Draft.denotes_ident (by omega) (by omega)
      rw [evaluate_byOne_of_denotes op (substitute_of_notMem hbrace) (.leaf (.ident hname))
        hdenotes hdepth]
      simp only [Reference.read]
      cases s.named (String.ofList w) <;> rfl
  | braces hbraced =>
      have hread : slot.read s = r.read s := by
        simp only [Slot.read, hreference]
      have hresolve :=
        substitute_written_append operand s ⟨w, slot, hbraced⟩ (brace_notMem_byOne op)
      simp only [hread] at hresolve
      cases hcell : r.read s with
      | error err =>
          simp only [hcell, Except.map] at hresolve
          exact evaluate_of_resolve_error maxDepth hresolve
      | ok a =>
          simp only [hcell, Except.map] at hresolve
          obtain ⟨t, hderives, hdenotes⟩ :=
            exists_operand s a (show 2 * 0 + 4 ≤ maxDepth from hdepth)
          rw [evaluate_byOne_of_denotes op hresolve hderives hdenotes hdepth]
          rfl

end Steps

/-- The text of an operation: the keyword and an argument in parentheses. -/
def Keyword.call (keyword : Keyword) (argument : String) : String :=
  keyword.name ++ "(" ++ argument ++ ")"

theorem Keyword.isWord_name
    (keyword : Keyword) :
    IsWord Char.isAlpha keyword.name.toList := by
  cases keyword <;> decide

/-- The parts of a call without blanks. -/
def Keyword.layout (keyword : Keyword) (argument : String) : Call.Layout where
  lead := []
  keyword := keyword.name.toList
  gap := []
  applied := some (argument.toList, [])
  blanks_lead := by decide
  isWord_keyword := keyword.isWord_name
  blanks_gap := by decide
  blanks_trail := by simp [Blanks]

namespace Operation

section Parsing

/-- The argument of an operation reaches to the last parenthesis. -/
theorem parse_call
    (keyword : Keyword)
    (argument : String) :
    parse (keyword.call argument) = ofCall keyword argument.toList := by
  have htext : (keyword.layout argument).text = (keyword.call argument).toList := by
    simp [Keyword.layout, Call.Layout.text, Call.Layout.ending, Keyword.call]
  exact parse_of_keyword htext rfl

theorem parseTarget_of_writes
    (build : Reference → Operation)
    {w : List Char}
    {r : Reference}
    (hw : Target.Writes w r) :
    parseTarget build w = .ok (build r) := by
  rw [parseTarget, Target.parse_ofList_of_writes hw]
  rfl

/-- A destination and an expression behind a comma and a blank. -/
theorem parseSet_of_target
    {x : String}
    {expression : List Char}
    {r : Reference}
    (hx : Target.parse x = .ok r)
    (hexpression : Trimmed expression)
    (hne : expression ≠ []) :
    parseSet (x.toList ++ ',' :: ' ' :: expression) = .ok (.set r (String.ofList expression)) := by
  have htrim : trim (' ' :: expression) = expression := by
    have hpadded : Padded expression (' ' :: expression) :=
      ⟨[' '], [], by decide, by decide, by simp⟩
    exact hpadded.trim_eq hexpression
  simp only [parseSet, cutFirst_append (Target.comma_notMem_of_parse hx), String.ofList_toList, hx,
    htrim]
  cases expression with
  | nil => exact absurd rfl hne
  | cons c cs => rfl

/-- A text in braces is an expression to be written. -/
theorem parseOutput_of_braces
    (inside : List Char) :
    parseOutput ('\x7b' :: (inside ++ ['\x7d'])) =
      .value (String.ofList ('\x7b' :: (inside ++ ['\x7d']))) := by
  have htrim := trim_enclosed (c := '\x7b') (d := '\x7d') (by decide) (by decide) inside
  simp [parseOutput, htrim, unquote?, unquoteBy?]

/-- A text in quotes is written itself, with values for its references. -/
theorem parseOutput_of_quotes
    (text : List Char) :
    parseOutput ('"' :: (text ++ ['"'])) = .template (String.ofList text) := by
  have htrim := trim_enclosed (c := '"') (d := '"') (by decide) (by decide) text
  simp [parseOutput, htrim, unquote?, unquoteBy?]

end Parsing

/-- Two texts are read as the given operations, and doing them from the given state gives the same
answer or error, the same memory and the same output. -/
structure Abbreviates (s : Scope) (maxDepth : Nat) (out : Sink) (short long : String)
    (op op' : Operation) : Prop where
  parse_short : parse short = .ok op
  parse_long : parse long = .ok op'
  perform_eq : perform short s maxDepth out = perform long s maxDepth out

section Forms

variable {s : Scope}
variable {maxDepth : Nat}
variable {out : Sink}

theorem abbreviates_of_effect_eq
    {short long : String}
    {op op' : Operation}
    (hshort : parse short = .ok op)
    (hlong : parse long = .ok op')
    (heffect : op.effect s maxDepth = op'.effect s maxDepth) :
    Abbreviates s maxDepth out short long op op' where
  parse_short := hshort
  parse_long := hlong
  perform_eq := by
    simp only [perform_eq, hshort, hlong, execute_eq, heffect]

/-- The long form of a count. -/
theorem parse_set_byOne
    (op : ArithOp)
    {x : String}
    {r : Reference}
    (hx : Target.Writes x.toList r)
    (hne : x ≠ "") :
    parse (Keyword.set.call (x ++ ", " ++ (x ++ String.ofList (byOne op)))) =
      .ok (.set r (x ++ String.ofList (byOne op))) := by
  have htrimmed : Trimmed (x.toList ++ byOne op) := by
    obtain ⟨c, cs, hcs, hc⟩ := hx.exists_head (by simpa using hne)
    refine ⟨by simpa [hcs] using hc, ?_⟩
    cases op <;> simp [byOne, Operator.symbol, isWhite]
  have hparse : Target.parse x = .ok r :=
    Target.parse_eq_ok_iff_writes.mpr ⟨_, padded_self _, hx⟩
  have hset := parseSet_of_target hparse htrimmed (by simp [byOne])
  rw [parse_call]
  simpa [ofCall] using hset

theorem evaluate_current
    (s : Scope)
    (hdepth : 4 ≤ maxDepth) :
    evaluate s maxDepth "\x7b\x7d" = .ok (.int s.memory.current) := by
  have hbraced : Slot.Braced ['\x7b', '\x7d'] .empty :=
    .braces (a := []) (b := []) (by decide) .empty (by decide)
  exact Template.evaluate_written s ⟨_, _, hbraced⟩ hdepth

/-- A text in braces has the same value as an expression and in output. -/
theorem line_of_braces
    (s : Scope)
    {inside : List Char}
    (hinside : '\x7d' ∉ inside)
    (hdepth : 4 ≤ maxDepth) :
    line s maxDepth (.value (String.ofList ('\x7b' :: (inside ++ ['\x7d'])))) =
      line s maxDepth (.template (String.ofList ('\x7b' :: (inside ++ ['\x7d'])))) := by
  rcases Template.braces_cases hinside with ⟨x, hx⟩ | hstray
  · rw [← hx, line, line, Template.evaluate_written s x hdepth, Template.render_written]
    cases x.slot.read s <;> rfl
  · have hfirst : Template.FirstStray
        (String.ofList ('\x7b' :: (inside ++ ['\x7d']))).toList [] (inside ++ ['\x7d']) := by
      rwa [String.toList_ofList]
    rw [line, line, Template.render, Template.substitute_stray hfirst,
      Template.evaluate_of_resolve_error maxDepth (Template.substitute_stray hfirst)]
    rfl

/-- A count is short for a store, if it stores what the operator makes of the cell and one. -/
theorem abbreviates_byOne
    (op : ArithOp)
    {keyword : Keyword}
    {count : Reference → Operation}
    {x : String}
    {r : Reference}
    (hkeyword : ofCall keyword x.toList = parseTarget count x.toList)
    (heffect :
      (count r).effect s maxDepth =
        (r.read s).bind fun a =>
          ((Operator.arith op).apply (.int a) (.int 1)).bind fun v =>
            Effect.storing s r v.toWord)
    (hx : Target.Writes x.toList r)
    (hne : x ≠ "")
    (hdepth : 4 ≤ maxDepth) :
    Abbreviates s maxDepth out
      (keyword.call x) (Keyword.set.call (x ++ ", " ++ (x ++ String.ofList (byOne op))))
      (count r) (.set r (x ++ String.ofList (byOne op))) := by
  have htext : x ++ String.ofList (byOne op) = String.ofList (x.toList ++ byOne op) := by
    simp
  refine abbreviates_of_effect_eq ?_ (parse_set_byOne op hx hne) ?_
  · rw [parse_call, hkeyword]
    exact parseTarget_of_writes count hx
  · have hvalue := evaluate_byOne (s := s) op hx (by simpa using hne) hdepth
    rw [heffect, effect, htext]
    simp only [hvalue]
    cases r.read s <;> rfl

/-- A text in braces is written alike as an expression and as a text. -/
theorem abbreviates_of_braces
    {inside : String}
    (hinside : '\x7d' ∉ inside.toList)
    (hdepth : 4 ≤ maxDepth) :
    Abbreviates s maxDepth out
      (Keyword.output.call ("\x7b" ++ inside ++ "\x7d"))
      (Keyword.output.call ("\"" ++ ("\x7b" ++ inside ++ "\x7d") ++ "\""))
      (.output (.value ("\x7b" ++ inside ++ "\x7d")))
      (.output (.template ("\x7b" ++ inside ++ "\x7d"))) := by
  have htext :
      "\x7b" ++ inside ++ "\x7d" = String.ofList ('\x7b' :: (inside.toList ++ ['\x7d'])) := by
    apply String.toList_inj.mp
    simp
  refine abbreviates_of_effect_eq ?_ ?_ ?_
  · rw [parse_call, htext, String.toList_ofList, ofCall, parseOutput_of_braces]
  · rw [parse_call, ofCall, htext]
    simpa using parseOutput_of_quotes ('\x7b' :: (inside.toList ++ ['\x7d']))
  · simp only [effect, htext, line_of_braces s hinside hdepth]

/-- Short forms of operations end like their long forms, wherever the limit on the depth is at least
four: counts of a destination, tests and outputs of the current cell, and outputs of a cell. -/
theorem short_forms_agree
    (s : Scope)
    (out : Sink)
    {maxDepth : Nat}
    (hdepth : 4 ≤ maxDepth) :
    (∀ (x : String) (r : Reference),
      Target.Writes x.toList r → x ≠ "" →
      Abbreviates s maxDepth out
        (Keyword.increment.call x) (Keyword.set.call (x ++ ", " ++ (x ++ " + 1")))
        (.increment r) (.set r (x ++ " + 1")) ∧
      Abbreviates s maxDepth out
        (Keyword.decrement.call x) (Keyword.set.call (x ++ ", " ++ (x ++ " - 1")))
        (.decrement r) (.set r (x ++ " - 1"))) ∧
    Abbreviates s maxDepth out
      Keyword.check.name (Keyword.check.call "\x7b\x7d")
      (.check none) (.check (some "\x7b\x7d")) ∧
    Abbreviates s maxDepth out
      (Keyword.output.call "") (Keyword.output.call "\x7b\x7d")
      (.output (.value "\x7b\x7d")) (.output (.value "\x7b\x7d")) ∧
    (∀ inside : String,
      '\x7d' ∉ inside.toList →
      Abbreviates s maxDepth out
        (Keyword.output.call ("\x7b" ++ inside ++ "\x7d"))
        (Keyword.output.call ("\"" ++ ("\x7b" ++ inside ++ "\x7d") ++ "\""))
        (.output (.value ("\x7b" ++ inside ++ "\x7d")))
        (.output (.template ("\x7b" ++ inside ++ "\x7d")))) := by
  refine ⟨?_, ?_, ?_, ?_⟩
  · intro x r hx hne
    have hplus : String.ofList (byOne .add) = " + 1" := by decide
    have hminus : String.ofList (byOne .sub) = " - 1" := by decide
    rw [← hplus, ← hminus]
    exact ⟨abbreviates_byOne .add rfl rfl hx hne hdepth,
      abbreviates_byOne .sub rfl rfl hx hne hdepth⟩
  · refine abbreviates_of_effect_eq (by rfl) (by rw [parse_call]; rfl) ?_
    rw [effect, effect, evaluate_current s hdepth]
    rfl
  · exact abbreviates_of_effect_eq (by rw [parse_call]; rfl) (by rw [parse_call]; rfl) rfl
  · intro inside hinside
    exact abbreviates_of_braces hinside hdepth

end Forms

/-- The smallest word in the cell before the current one. -/
def smallest : Scope :=
  ⟨Memory.empty.set (-1) Int64.minValue, .tape⟩

/-- Counting down from the smallest word, and writing it to an output that has no room for it, at
the least depth that is allowed.  A name fails alike in both forms. -/
theorem smallest_short_forms :
    (Target.Writes "\x7b -1\x7d".toList (.relative (-1)) ∧
      Abbreviates smallest 4 (Sink.limited 3)
        (Keyword.decrement.call "\x7b -1\x7d") (Keyword.set.call "\x7b -1\x7d, \x7b -1\x7d - 1")
        (.decrement (.relative (-1))) (.set (.relative (-1)) "\x7b -1\x7d - 1")) ∧
    (Target.Writes "x".toList (.named "x") ∧
      Abbreviates smallest 4 (Sink.limited 3)
        (Keyword.increment.call "x") (Keyword.set.call "x, x + 1")
        (.increment (.named "x")) (.set (.named "x") "x + 1")) ∧
    ('\x7d' ∉ " -1".toList ∧
      Abbreviates smallest 4 (Sink.limited 3)
        (Keyword.output.call "\x7b -1\x7d") (Keyword.output.call "\"\x7b -1\x7d\"")
        (.output (.value "\x7b -1\x7d")) (.output (.template "\x7b -1\x7d"))) := by
  obtain ⟨hcounts, _, _, houtputs⟩ :=
    short_forms_agree smallest (Sink.limited 3) (Nat.le_refl 4)
  have hbefore : Target.Writes "\x7b -1\x7d".toList (.relative (-1)) :=
    .braces (a := [' ']) (w := ['-', '1']) (b := []) (by decide)
      (.minus (w := ['1']) (by decide) (by decide)) (by decide)
  have hname : Target.Writes "x".toList (.named "x") :=
    .name (w := ['x']) (by decide)
  have hinside : '\x7d' ∉ " -1".toList := by decide
  exact ⟨⟨hbefore, (hcounts _ _ hbefore (by decide)).2⟩, ⟨hname, (hcounts _ _ hname (by decide)).1⟩,
    hinside, houtputs " -1" hinside⟩

end Operation
end GraphMachine
