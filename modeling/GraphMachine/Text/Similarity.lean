/-!
# Similarity of words

Two words are similar if they share many characters at nearly the same places and in nearly the
same order.  The measure is the mean of three ratios: the common characters to the length of each
word, and those of them in the right order to all of them.
-/

namespace GraphMachine
namespace Similarity

/-- Finds a character that is not used yet, at most so far to the right, and marks it as used. -/
def reserve (c : Char) : Nat → List (Char × Bool) → Option (List (Char × Bool))
  | 0, _ => none
  | _, [] => none
  | reach + 1, (d, used) :: rest =>
      if c = d ∧ used = false then
        some ((d, true) :: rest)
      else
        (reserve c reach rest).map ((d, used) :: ·)

/-- The common characters in the order of the first word, and the second word with those marked
that were found.  A character is looked for at most so far from its own place. -/
def common (range : Nat) : Nat → List Char → List (Char × Bool) → List Char × List (Char × Bool)
  | _, [], other => ([], other)
  | index, c :: cs, other =>
      let skipped := index - range
      match reserve c (index + range + 1 - skipped) (other.drop skipped) with
      | none => common range (index + 1) cs other
      | some marked =>
          let (found, final) := common range (index + 1) cs (other.take skipped ++ marked)
          (c :: found, final)

/-- The sum of the three ratios as a fraction. -/
def measure (a b : List Char) : Nat × Nat :=
  let range := max a.length b.length / 2 - 1
  let (found, marked) := common range 0 a (b.map fun c => (c, false))
  let other := (marked.filter fun p => p.2).map fun p => p.1
  let matched := found.length
  let moved := ((found.zip other).filter fun p => p.1 != p.2).length / 2
  (matched * matched * b.length + matched * matched * a.length +
      (matched - moved) * a.length * b.length,
    matched * a.length * b.length)

/-- Whether a fraction is less than another one. -/
def less (x y : Nat × Nat) : Bool :=
  x.1 * y.2 < y.1 * x.2

/-- Whether the mean of the three ratios is above seven tenths. -/
def similar (a b : List Char) : Bool :=
  less (21, 10) (measure a b)

/-- The most similar of some words. -/
def closest? (word : String) (candidates : List String) : Option String :=
  (candidates.filter fun c => similar word.toList c.toList).foldl
    (fun best c =>
      match best with
      | none => some c
      | some b =>
          if less (measure word.toList b.toList) (measure word.toList c.toList) then
            some c
          else
            some b)
    none

end Similarity
end GraphMachine
