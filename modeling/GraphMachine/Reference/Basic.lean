import GraphMachine.Expr.Eval

/-!
# References

A reference denotes one memory cell: the current tape cell, the tape cell at a distance from the
pointer, or a named cell.  Named cells can be used in the named mode only.
-/

namespace GraphMachine

/-- Changes of memory, which may fail.  What was changed before a failure stays changed. -/
abbrev MemoryM := ExceptT EvalError (StateM Memory)

/-- A memory cell as programs denote it. -/
inductive Reference where
  | current
  | relative (offset : Int64)
  | named (name : String)
deriving DecidableEq, Repr

namespace Reference

def read (r : Reference) (s : Scope) : Except EvalError Int64 :=
  match r with
  | current => .ok s.memory.current
  | relative offset => .ok (s.memory.get (s.memory.addressAt offset))
  | named name => s.named name

/-- Named cells can be used in the named mode only. -/
def checkNamed (name : String) : AddressingMode → Except EvalError Unit
  | .named => .ok ()
  | .tape => .error (.namedMemoryDisabled name)

/-- Writes the cell, where the mode allows it. -/
def assign (r : Reference) (mode : AddressingMode) (value : Int64) : MemoryM Unit :=
  match r with
  | current => modify fun m => m.set m.pointer value
  | relative offset => modify fun m => m.set (m.addressAt offset) value
  | named name => do
      liftM (checkNamed name mode)
      modify fun m => m.setNamed name value

/-- The memory after the cell was written. -/
def write (r : Reference) (value : Int64) (s : Scope) : Except EvalError Memory :=
  let (result, memory) := (r.assign s.mode value).run.run s.memory
  result.map fun _ => memory

def text : Reference → String
  | current => "\x7b\x7d"
  | relative offset => "\x7b" ++ Decimal.ofWord offset ++ "\x7d"
  | named name => "\x7b" ++ name ++ "\x7d"

end Reference
end GraphMachine
