import GraphMachine.Proofs.Operation.Frame
import GraphMachine.Proofs.Text.ByteOrder

/-!
# What memory keeps of its history

Memory is changed in three ways: the pointer is shifted, a tape cell is written or a named cell is
written.  After any such updates of the empty memory, each cell has the last value that was written
to it, and the pointer is the sum of all shifts as a word.  The listings have exactly the cells that
were written, in ascending order: tape cells by their addresses, named cells by the bytes of their
names.

One lemma, `written_update`, says what an update does to a cell.  The rest is about a single memory:
what it reads and lists is determined by its pointer and by what was written to its cells.
-/

namespace GraphMachine
namespace Memory

/-- A change of memory. -/
inductive Update where
  | shift (delta : Int64)
  | set (address value : Int64)
  | setNamed (name : String) (value : Int64)
deriving DecidableEq, Repr

namespace Update

/-- The value that an update writes to a cell, if it does. -/
def valueAt (cell : Cell) : Update → Option Int64
  | shift _ => none
  | set address value => if Cell.tape address = cell then some value else none
  | setNamed name value => if Cell.named name = cell then some value else none

/-- How far an update moves the pointer. -/
def delta : Update → Int
  | shift delta => delta.toInt
  | set _ _ => 0
  | setNamed _ _ => 0

end Update

def update (m : Memory) : Update → Memory
  | .shift delta => m.shift delta
  | .set address value => m.set address value
  | .setNamed name value => m.setNamed name value

/-- The memory after some updates of the empty one. -/
def after (us : List Update) : Memory :=
  us.foldl update .empty

/-- The values that were written to a cell, one after the other. -/
def valuesAt (cell : Cell) (us : List Update) : List Int64 :=
  us.filterMap (Update.valueAt cell)

section Reading

variable (m : Memory)

theorem get_eq_written
    (a : Int64) :
    m.get a = (m.written (.tape a)).getD 0 :=
  Std.ExtTreeMap.getD_eq_getD_getElem?

theorem getNamed_eq_written
    (x : String) :
    m.getNamed x = (m.written (.named x)).getD 0 :=
  Std.ExtTreeMap.getD_eq_getD_getElem?

theorem mem_cells_iff
    {a v : Int64} :
    (a, v) ∈ m.cells ↔ m.written (.tape a) = some v :=
  Std.ExtTreeMap.mem_toList_iff_getElem?_eq_some

theorem mem_namedCells_iff
    {x : String}
    {v : Int64} :
    (x, v) ∈ m.namedCells ↔ m.written (.named x) = some v :=
  Std.ExtTreeMap.mem_toList_iff_getElem?_eq_some

/-- Tape cells are listed by ascending addresses. -/
theorem pairwise_cells :
    m.cells.Pairwise fun c d => c.1.toInt < d.1.toInt := by
  refine Std.ExtTreeMap.ordered_keys_toList.imp ?_
  intro c d hlt
  exact Int64.lt_iff_toInt_lt.mp (Std.compare_eq_lt.mp hlt)

/-- Named cells are listed by the ascending bytes of their names. -/
theorem pairwise_namedCells :
    m.namedCells.Pairwise fun c d => Text.bytes c.1 < Text.bytes d.1 := by
  refine Std.ExtTreeMap.ordered_keys_toList.imp ?_
  intro c d hlt
  exact Text.bytes_lt_iff.mpr (compareOfLessAndEq_eq_lt.mp hlt)

end Reading

section Updating

theorem after_concat
    (us : List Update)
    (u : Update) :
    after (us ++ [u]) = (after us).update u := by
  simp [after]

theorem Stores.written_eq
    {m m' : Memory}
    {cell : Cell}
    {value : Int64}
    (h : m.Stores cell value m')
    (other : Cell) :
    m'.written other = (if cell = other then some value else none).or (m.written other) := by
  by_cases hcell : cell = other
  · rw [if_pos hcell, ← hcell, h.written_self, Option.some_or]
  · rw [if_neg hcell, h.written_other other (Ne.symm hcell), Option.none_or]

/-- An update writes to its cell and to no other one. -/
theorem written_update
    (m : Memory)
    (u : Update)
    (cell : Cell) :
    (m.update u).written cell = (u.valueAt cell).or (m.written cell) := by
  cases u with
  | shift delta => cases cell <;> rfl
  | set address value => exact (m.stores_set address value).written_eq cell
  | setNamed name value => exact (m.stores_setNamed name value).written_eq cell

theorem pointer_update
    (m : Memory)
    (u : Update) :
    (m.update u).pointer = m.pointer + Int64.ofInt u.delta := by
  cases u with
  | shift delta => simp [update, shift, addressAt, Update.delta]
  | set address value => simp [update, set, Update.delta]
  | setNamed name value => simp [update, setNamed, Update.delta]

/-- A cell has the last value that was written to it. -/
theorem written_after
    (us : List Update)
    (cell : Cell) :
    (after us).written cell = (valuesAt cell us).getLast? := by
  induction us using List.reverseRecOn with
  | nil => cases cell <;> rfl
  | append_singleton us u ih =>
      rw [after_concat, written_update, ih, valuesAt, valuesAt, List.filterMap_append,
        List.getLast?_append]
      cases hvalue : u.valueAt cell with
      | none => simp [hvalue]
      | some v => simp [hvalue]

theorem pointer_after
    (us : List Update) :
    (after us).pointer = Int64.ofInt (us.map Update.delta).sum := by
  induction us using List.reverseRecOn with
  | nil => rfl
  | append_singleton us u ih =>
      rw [after_concat, pointer_update, ih, ← Int64.ofInt_add]
      simp

end Updating

/-- The memory is what is left of updates of the empty memory. -/
structure Remembers (us : List Update) (m : Memory) : Prop where
  get_eq : ∀ a, m.get a = (valuesAt (.tape a) us).getLast?.getD 0
  getNamed_eq : ∀ x, m.getNamed x = (valuesAt (.named x) us).getLast?.getD 0
  pointer_eq : m.pointer = Int64.ofInt (us.map Update.delta).sum
  current_eq : m.current = m.get (Int64.ofInt (us.map Update.delta).sum)
  /-- No address is listed twice. -/
  cells_ascend : m.cells.Pairwise fun c d => c.1.toInt < d.1.toInt
  cells_written : ∀ a v, (a, v) ∈ m.cells ↔ (valuesAt (.tape a) us).getLast? = some v
  /-- No name is listed twice. -/
  namedCells_ascend : m.namedCells.Pairwise fun c d => Text.bytes c.1 < Text.bytes d.1
  namedCells_written : ∀ x v, (x, v) ∈ m.namedCells ↔ (valuesAt (.named x) us).getLast? = some v

/-- Memory is two maps that are zero where nothing was written, and a pointer that wraps around.
After any updates each cell is read as the last value written to it, the pointer is the sum of the
shifts, and the listings have the cells that were written, those that hold zero among them, once
each and in ascending order.  Writing to the tape changes nothing about the named cells, and writing
to a named cell changes nothing about the tape. -/
theorem updates_are_remembered
    (us : List Update) :
    Remembers us (after us) ∧
    (∀ a v,
      (∀ x, ((after us).set a v).getNamed x = (after us).getNamed x) ∧
      ((after us).set a v).namedCells = (after us).namedCells) ∧
    ∀ x v,
      (∀ a, ((after us).setNamed x v).get a = (after us).get a) ∧
      ((after us).setNamed x v).cells = (after us).cells := by
  refine ⟨?_, fun a v => ⟨fun x => rfl, rfl⟩, fun x v => ⟨fun a => rfl, rfl⟩⟩
  constructor
  case get_eq =>
    intro a
    rw [get_eq_written, written_after]
  case getNamed_eq =>
    intro x
    rw [getNamed_eq_written, written_after]
  case pointer_eq => exact pointer_after us
  case current_eq => rw [current, pointer_after]
  case cells_ascend => exact pairwise_cells _
  case cells_written =>
    intro a v
    rw [mem_cells_iff, written_after]
  case namedCells_ascend => exact pairwise_namedCells _
  case namedCells_written =>
    intro x v
    rw [mem_namedCells_iff, written_after]

/-- A cell that holds zero again is listed, and a name outside the basic plane comes after the last
ones inside it. -/
example :
    (after [.set 5 1, .setNamed "😀" 2, .shift 3, .setNamed "～" 4, .set (-1) 7, .set 5 0]).snapshot =
      "ptr=3 [-1]=7 [5]=0 ～=4 😀=2" := by
  decide +kernel

end Memory
end GraphMachine
