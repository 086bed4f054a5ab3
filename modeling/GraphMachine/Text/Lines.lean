/-!
# Lines

A source is read line by line.  A line ends with its line feed; the last one may lack it.
-/

namespace GraphMachine
namespace Text

/-- The lines of a text, each with the line feed that ends it. -/
def lines : List Char → List (List Char)
  | [] => []
  | c :: cs =>
      if c = '\n' then
        [c] :: lines cs
      else
        match lines cs with
        | [] => [[c]]
        | l :: ls => (c :: l) :: ls

/-- A line without the line feeds and carriage returns at its end. -/
def chomp (line : List Char) : List Char :=
  (line.reverse.dropWhile fun c => c == '\n' || c == '\r').reverse

/-- The lines of a text joined give the text back. -/
theorem flatten_lines
    (cs : List Char) :
    (lines cs).flatten = cs := by
  induction cs with
  | nil =>
      rfl
  | cons c cs ih =>
      unfold lines
      split
      · simp [ih]
      · cases h : lines cs with
        | nil =>
            rw [h] at ih
            simp at ih
            simp [← ih]
        | cons l ls =>
            rw [h] at ih
            simp at ih
            simp [ih]

end Text
end GraphMachine
