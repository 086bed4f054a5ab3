import GraphMachine.EvalError
import GraphMachine.Text.Cut
import GraphMachine.Text.Whitespace

/-!
# Parsing expressions

A parsing expression takes a part off the front of a text, or it fails and leaves the text as it
was.  Choices are ordered: the second alternative is tried only after the first one has failed.

A rule is a parsing expression with a name.  The rules that fail at the furthest place are put on
record, and the record survives the failure: it is what an error reports when no alternative is
left.  A rule stands for the rules inside it that failed where it began itself, unless there was
exactly one of them, which then says more.  Places that were passed by another alternative stay on
record as well.
-/

namespace GraphMachine
namespace Peg

/-- A place in a text: what is left to be read, and the position that this starts at. -/
structure Place where
  rest : List Char
  position : Nat
deriving DecidableEq, Repr

/-- The place behind a part of the text. -/
def Place.advance (p : Place) (word rest : List Char) : Place :=
  ⟨rest, p.position + Text.byteLength word⟩

/-- The furthest position at which a rule has failed, and the rules that failed there, the latest
first. -/
structure Attempts where
  position : Nat
  rules : List Expectation
deriving DecidableEq, Repr

namespace Attempts

def initial : Attempts :=
  ⟨0, []⟩

/-- How many rules are on record for a position. -/
def countAt (a : Attempts) (position : Nat) : Nat :=
  if position = a.position then a.rules.length else 0

/-- Takes the latest rules at a position off the record.  A position further on than all others
begins a new record. -/
def rewind (a : Attempts) (position latest : Nat) : Attempts :=
  if position = a.position then
    { a with rules := a.rules.drop latest }
  else if a.position < position then
    ⟨position, []⟩
  else
    a

/-- Puts a rule on record, if no rule has failed further on. -/
def add (a : Attempts) (rule : Expectation) (position : Nat) : Attempts :=
  if position = a.position then
    { a with rules := rule :: a.rules }
  else
    a

/-- A rule has failed that began at a position, with `before` rules on record there.  It stands for
the rules that have failed there since then, unless that is a single one. -/
def fail (a : Attempts) (rule : Expectation) (position before : Nat) : Attempts :=
  let latest := a.countAt position - before
  if latest = 1 then a else (a.rewind position latest).add rule position

end Attempts
end Peg

/-- Parsing expressions.  Failure gives the place back and keeps the record. -/
abbrev Peg :=
  StateT Peg.Place (OptionT (StateM Peg.Attempts))

namespace Peg

variable {α : Type}

/-- A rule with a name. -/
@[inline] def rule (label : Expectation) (body : Peg α) : Peg α := fun place attempts =>
  match body place attempts with
  | (some found, after) => (some found, after)
  | (none, after) => (none, after.fail label place.position (attempts.countAt place.position))

/-- The given characters. -/
@[inline] def literal (word : List Char) : Peg Unit := do
  let place ← get
  if word.isPrefixOf place.rest then
    set (place.advance word (place.rest.drop word.length))
  else
    failure

/-- As many characters of a class as there are. -/
@[inline] def run (p : Char → Bool) : Peg (List Char) := do
  let place ← get
  let word := place.rest.takeWhile p
  set (place.advance word (place.rest.dropWhile p))
  pure word

/-- As many characters of a class as there are, and at least one. -/
@[inline] def run1 (p : Char → Bool) : Peg (List Char) := do
  match ← run p with
  | [] => failure
  | c :: cs => pure (c :: cs)

/-- Letters, digits and underscores after a first character that is no digit. -/
@[inline] def identifier : Peg (List Char) := do
  let place ← get
  match Text.identifier? place.rest with
  | some (word, rest) =>
      set (place.advance word rest)
      pure word
  | none => failure

def endOfText : Peg Unit :=
  rule .endOfText do
    let place ← get
    if place.rest.isEmpty then pure () else failure

/-- An expression as often as it matches, at most `fuel` times. -/
@[specialize] def repeated (x : Peg α) : Nat → Peg (List α)
  | 0 => pure []
  | fuel + 1 => (do let a ← x; let as ← repeated x fuel; pure (a :: as)) <|> pure []

def gaps : Peg Unit :=
  discard (run Text.isGap)

/-- An expression as often as it matches, with gaps between.  Gaps that are followed by something
else are given back. -/
@[inline] def spaced (x : Peg α) (fuel : Nat) : Peg (List α) :=
  (do let a ← x; let as ← repeated (do gaps; x) fuel; pure (a :: as)) <|> pure []

/-- Reads a text; says what was expected, and where, if that fails. -/
def parse (x : Peg α) (text : List Char) : Except (Nat × List Expectation) α :=
  match x ⟨text, 0⟩ .initial with
  | (some (a, _), _) => .ok a
  | (none, attempts) => .error (attempts.position, Expectation.arrange attempts.rules)

end Peg
end GraphMachine
