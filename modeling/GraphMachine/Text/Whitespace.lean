/-!
# Three kinds of whitespace

Program texts tell three classes of white characters apart:

* blanks, that is space and tab, pad the parts of a declaration, of an operation and of a reference;
* gaps, that is blanks, carriage return and line feed, separate the tokens of an expression;
* the characters with the Unicode property White_Space are trimmed from edges and arguments.

Each class lies inside the next one.
-/

namespace GraphMachine
namespace Text

/-- Space and tab. -/
def isBlank (c : Char) : Bool :=
  c == ' ' || c == '\t'

/-- Space, tab, carriage return and line feed. -/
def isGap (c : Char) : Bool :=
  isBlank c || c == '\r' || c == '\n'

/-- The Unicode property White_Space. -/
def isWhite (c : Char) : Bool :=
  let n := c.toNat
  (0x09 ≤ n && n ≤ 0x0D) || n == 0x20 || n == 0x85 || n == 0xA0 || n == 0x1680 ||
    (0x2000 ≤ n && n ≤ 0x200A) || n == 0x2028 || n == 0x2029 || n == 0x202F ||
    n == 0x205F || n == 0x3000

theorem isGap_of_isBlank
    {c : Char}
    (h : isBlank c = true) :
    isGap c = true := by
  simp [isGap, h]

theorem isWhite_of_isGap
    {c : Char}
    (h : isGap c = true) :
    isWhite c = true := by
  simp only [isGap, isBlank, Bool.or_eq_true, beq_iff_eq] at h
  rcases h with ((h | h) | h) | h <;> subst h <;> decide

/-- Drops the longest run of characters of a class at the end of a text. -/
def dropEndWhile (p : Char → Bool) (cs : List Char) : List Char :=
  (cs.reverse.dropWhile p).reverse

def skipBlanks (cs : List Char) : List Char :=
  cs.dropWhile isBlank

def trimStart (cs : List Char) : List Char :=
  cs.dropWhile isWhite

def trimEnd (cs : List Char) : List Char :=
  dropEndWhile isWhite cs

/-- Drops white characters on both sides. -/
def trim (cs : List Char) : List Char :=
  trimEnd (trimStart cs)

end Text
end GraphMachine
