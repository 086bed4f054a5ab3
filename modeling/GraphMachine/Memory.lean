import Std.Data.ExtTreeMap
import GraphMachine.Text.Decimal

/-!
# Memory

Memory is a tape of cells addressed by 64-bit words, a store of named cells, and a pointer to the
current tape cell.  A cell that was never written holds zero.  Addresses and the pointer wrap
around at the ends of the word range.
-/

namespace GraphMachine

/-- Whether programs may use named cells beside the tape. -/
inductive AddressingMode where
  | tape
  | named
deriving DecidableEq, Repr

/-- Tape cells, named cells and the pointer. -/
structure Memory where
  tape : Std.ExtTreeMap Int64 Int64
  names : Std.ExtTreeMap String Int64
  pointer : Int64

namespace Memory

/-- Memory before anything was written: the pointer is at address zero. -/
def empty : Memory :=
  ⟨∅, ∅, 0⟩

def get (m : Memory) (address : Int64) : Int64 :=
  m.tape.getD address 0

def set (m : Memory) (address value : Int64) : Memory :=
  { m with tape := m.tape.insert address value }

def getNamed (m : Memory) (name : String) : Int64 :=
  m.names.getD name 0

def setNamed (m : Memory) (name : String) (value : Int64) : Memory :=
  { m with names := m.names.insert name value }

/-- The address at a distance from the pointer. -/
def addressAt (m : Memory) (offset : Int64) : Int64 :=
  m.pointer + offset

def shift (m : Memory) (delta : Int64) : Memory :=
  { m with pointer := m.addressAt delta }

/-- The value of the tape cell under the pointer. -/
def current (m : Memory) : Int64 :=
  m.get m.pointer

/-- The written tape cells, by ascending address. -/
def cells (m : Memory) : List (Int64 × Int64) :=
  m.tape.toList

/-- The written named cells, by ascending name. -/
def namedCells (m : Memory) : List (String × Int64) :=
  m.names.toList

def cellText (cell : Int64 × Int64) : String :=
  " [" ++ Decimal.ofWord cell.1 ++ "]=" ++ Decimal.ofWord cell.2

def namedCellText (cell : String × Int64) : String :=
  " " ++ cell.1 ++ "=" ++ Decimal.ofWord cell.2

/-- A snapshot: the pointer, the written tape cells and the written named cells. -/
def snapshot (m : Memory) : String :=
  "ptr=" ++ Decimal.ofWord m.pointer ++
    String.join (m.cells.map cellText) ++ String.join (m.namedCells.map namedCellText)

/-- Writing a tape cell is seen at its address alone. -/
@[simp] theorem get_set
    (m : Memory)
    (a b v : Int64) :
    (m.set a v).get b = if a = b then v else m.get b := by
  simp only [get, set, Std.ExtTreeMap.getD_insert, Std.compare_eq_iff_eq]

/-- Writing a named cell is seen under its name alone. -/
@[simp] theorem getNamed_setNamed
    (m : Memory)
    (x y : String)
    (v : Int64) :
    (m.setNamed x v).getNamed y = if x = y then v else m.getNamed y := by
  simp only [getNamed, setNamed, Std.ExtTreeMap.getD_insert, Std.compare_eq_iff_eq]

end Memory
end GraphMachine
