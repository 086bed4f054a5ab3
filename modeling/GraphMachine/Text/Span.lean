/-!
# Byte positions

Positions in a text count the bytes of its UTF-8 form.  A span is a half-open range of such
positions.
-/

namespace GraphMachine

/-- A half-open range of byte positions. -/
structure Span where
  start : Nat
  stop : Nat
deriving DecidableEq, Repr

namespace Span

def zero : Span :=
  ⟨0, 0⟩

/-- The empty span at a position. -/
def point (position : Nat) : Span :=
  ⟨position, position⟩

/-- The same range further on in a longer text. -/
def shift (s : Span) (bytes : Nat) : Span :=
  ⟨s.start + bytes, s.stop + bytes⟩

end Span

namespace Text

/-- Number of bytes of a text in UTF-8. -/
def byteLength : List Char → Nat
  | [] => 0
  | c :: cs => c.utf8Size + byteLength cs

@[simp] theorem byteLength_nil :
    byteLength [] = 0 := by
  rfl

@[simp] theorem byteLength_cons
    (c : Char)
    (cs : List Char) :
    byteLength (c :: cs) = c.utf8Size + byteLength cs := by
  rfl

@[simp] theorem byteLength_append
    (u v : List Char) :
    byteLength (u ++ v) = byteLength u + byteLength v := by
  induction u with
  | nil =>
      simp
  | cons c u ih =>
      simp [ih, Nat.add_assoc]

/-- The position at which a text goes on with the given rest of it. -/
def positionOf (text rest : List Char) : Nat :=
  byteLength text - byteLength rest

/-- What follows the first bytes of a text. -/
def dropBytes : Nat → List Char → List Char
  | _, [] => []
  | n, c :: cs => if n = 0 then c :: cs else dropBytes (n - c.utf8Size) cs

/-- The first bytes of a text. -/
def takeBytes : Nat → List Char → List Char
  | _, [] => []
  | n, c :: cs => if n = 0 then [] else c :: takeBytes (n - c.utf8Size) cs

/-- The part of a text that a span covers. -/
def slice (s : Span) (text : List Char) : List Char :=
  takeBytes (s.stop - s.start) (dropBytes s.start text)

end Text
end GraphMachine
