/-!
# Output

Output goes to a sink, which takes bytes until its room is used up and refuses the rest.  What it
took before it refused stays written, so a line may be cut short, even inside a character.
-/

namespace GraphMachine

/-- An output stream and what it has taken so far. -/
structure Sink where
  /-- The bytes taken. -/
  taken : ByteArray
  /-- How many more bytes are taken, if there is a limit. -/
  room : Option Nat

namespace Sink

def unlimited : Sink :=
  ⟨.empty, none⟩

def limited (bytes : Nat) : Sink :=
  ⟨.empty, some bytes⟩

/-- The reason that a sink gives when it refuses. -/
def refusal : String :=
  "closed"

/-- Writes a text, and tells whether all of it was taken. -/
def write (s : Sink) (text : String) : Bool × Sink :=
  let bytes := text.toUTF8
  match s.room with
  | none => (true, { s with taken := s.taken ++ bytes })
  | some k =>
      if bytes.size ≤ k then
        (true, ⟨s.taken ++ bytes, some (k - bytes.size)⟩)
      else
        (false, ⟨s.taken ++ bytes.extract 0 k, some 0⟩)

/-- The text that was taken.  If its last character is cut, U+FFFD stands in its place. -/
def text (s : Sink) : String :=
  match String.fromUTF8? s.taken with
  | some t => t
  | none =>
      let whole := [1, 2, 3].findSome? fun cut =>
        String.fromUTF8? (s.taken.extract 0 (s.taken.size - cut))
      (whole.getD "").push '\ufffd'

end Sink
end GraphMachine
