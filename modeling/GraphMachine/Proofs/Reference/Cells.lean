import GraphMachine.Proofs.Outcome
import GraphMachine.Reference.Basic
import Mathlib

/-!
# Cells

A reference denotes one cell, of the tape or with a name.  Writing through it is allowed or not by
the mode alone, and it changes this cell if it is allowed and nothing if it is not.
-/

namespace GraphMachine

/-- A cell of one of the two stores of memory. -/
inductive Cell where
  | tape (address : Int64)
  | named (name : String)
deriving DecidableEq, Repr

/-- The cell that a reference denotes. -/
def Reference.cell (m : Memory) : Reference → Cell
  | current => .tape m.pointer
  | relative offset => .tape (m.addressAt offset)
  | named name => .named name

namespace Memory

/-- The value that was written to a cell, if one was. -/
def written (m : Memory) : Cell → Option Int64
  | .tape address => m.tape[address]?
  | .named name => m.names[name]?

/-- The second memory is the first one with a value in a cell, and apart from that the same. -/
structure Stores (m : Memory) (cell : Cell) (value : Int64) (m' : Memory) : Prop where
  pointer_eq : m'.pointer = m.pointer
  written_self : m'.written cell = some value
  written_other : ∀ other, other ≠ cell → m'.written other = m.written other

theorem stores_set
    (m : Memory)
    (address value : Int64) :
    m.Stores (.tape address) value (m.set address value) where
  pointer_eq := rfl
  written_self := by
    simp [written, set]
  written_other other hother := by
    cases other with
    | tape a =>
        have hne : address ≠ a := fun h => hother (congrArg Cell.tape h.symm)
        simp [written, set, Std.ExtTreeMap.getElem?_insert, hne]
    | named name => rfl

theorem stores_setNamed
    (m : Memory)
    (name : String)
    (value : Int64) :
    m.Stores (.named name) value (m.setNamed name value) where
  pointer_eq := rfl
  written_self := by
    simp [written, setNamed]
  written_other other hother := by
    cases other with
    | tape a => rfl
    | named x =>
        have hne : name ≠ x := fun h => hother (congrArg Cell.named h.symm)
        simp [written, setNamed, Std.ExtTreeMap.getElem?_insert, hne]

end Memory

namespace Reference

/-- Whether the cell can be used in a mode. -/
def permit (mode : AddressingMode) : Reference → Except EvalError Unit
  | named name => checkNamed name mode
  | _ => .ok ()

/-- The memory after the cell was written. -/
def store (r : Reference) (value : Int64) (m : Memory) : Memory :=
  match r with
  | current => m.set m.pointer value
  | relative offset => m.set (m.addressAt offset) value
  | named name => m.setNamed name value

/-- A reference stores to the cell that it denotes. -/
theorem stores_store
    (r : Reference)
    (value : Int64)
    (m : Memory) :
    m.Stores (r.cell m) value (r.store value m) := by
  cases r with
  | current => exact m.stores_set m.pointer value
  | relative offset => exact m.stores_set (m.addressAt offset) value
  | named name => exact m.stores_setNamed name value

/-- A cell is written after the mode was found to allow it, and memory is left alone otherwise. -/
theorem run_assign
    (r : Reference)
    (mode : AddressingMode)
    (value : Int64)
    (m : Memory) :
    (r.assign mode value).run.run m =
      match r.permit mode with
      | .ok () => (.ok (), r.store value m)
      | .error err => (.error err, m) := by
  cases r with
  | current => rfl
  | relative offset => rfl
  | named name => cases mode <;> rfl

theorem write_eq
    (r : Reference)
    (value : Int64)
    (s : Scope) :
    r.write value s = (r.permit s.mode).map fun _ => r.store value s.memory := by
  rw [write, run_assign]
  cases r.permit s.mode <;> rfl

/-- What was written to a cell is read from it. -/
theorem read_of_write
    {r : Reference}
    {v : Int64}
    {s : Scope}
    {m : Memory}
    (h : r.write v s = .ok m) :
    r.read ⟨m, s.mode⟩ = .ok v := by
  rw [write_eq, map_eq_ok_iff] at h
  obtain ⟨_, hpermit, rfl⟩ := h
  cases r with
  | current =>
      have hget : (s.memory.set s.memory.pointer v).get s.memory.pointer = v := by
        simp [Memory.get, Memory.set]
      exact congrArg Except.ok hget
  | relative offset =>
      have hget :
          (s.memory.set (s.memory.addressAt offset) v).get (s.memory.addressAt offset) = v := by
        simp [Memory.get, Memory.set]
      exact congrArg Except.ok hget
  | named name =>
      cases hmode : s.mode with
      | named => simp [read, store, Scope.named, Memory.getNamed, Memory.setNamed]
      | tape =>
          rw [hmode] at hpermit
          cases hpermit

end Reference
end GraphMachine
