import GraphMachine.Proofs.Memory.History
import GraphMachine.Proofs.Operation.CanonicalText

/-!
# Snapshots tell memories apart

A snapshot names the pointer, then the written tape cells and then the written named cells.  Parts
are set apart by spaces, and in each part the value stands behind an equals sign.  So a snapshot can
be taken apart again, as long as neither sign occurs in what stands before it:

* addresses and values are numbers, and numbers are told apart by their decimal forms;
* an address stands in brackets, so it is not taken for a name;
* names are identifiers, since operations are read before they are done, and only identifiers are
  read as names.

A name that is no identifier could imitate other cells.  So the last point is an invariant of memory
that all operations keep, and snapshots are unambiguous for the memories that operations lead to.
-/

namespace GraphMachine

open Text

section Performing

/-- What an operation that is read and done makes of memory. -/
theorem Operation.memory_perform
    (text : String)
    (s : Scope)
    (maxDepth : Nat)
    (out : Sink) :
    (perform text s maxDepth out).memory = s.memory ∨
      ∃ op eff,
        parse text = .ok op ∧
        op.effect s maxDepth = .ok eff ∧
        (perform text s maxDepth out).memory = eff.applyTo s.memory := by
  rw [perform_eq]
  cases hparse : parse text with
  | error err => exact .inl rfl
  | ok op =>
      cases heffect : op.effect s maxDepth with
      | error err =>
          left
          simp only [execute_eq, heffect]
      | ok eff =>
          rcases hwrite : out.write eff.output with ⟨fits, written⟩
          cases fits with
          | true =>
              right
              exact ⟨op, eff, rfl, heffect, by simp only [execute_eq, heffect, hwrite]⟩
          | false =>
              left
              simp only [execute_eq, heffect, hwrite]

/-- An effect changes memory by updates. -/
theorem Effect.exists_updates
    (eff : Effect)
    (m : Memory) :
    ∃ us : List Memory.Update, eff.applyTo m = us.foldl Memory.update m := by
  cases eff with
  | store target value =>
      cases target with
      | current => exact ⟨[.set m.pointer value], rfl⟩
      | relative offset => exact ⟨[.set (m.addressAt offset) value], rfl⟩
      | named name => exact ⟨[.setNamed name value], rfl⟩
  | print line => exact ⟨[], rfl⟩
  | answer result => exact ⟨[], rfl⟩
  | move delta => exact ⟨[.shift delta], rfl⟩

end Performing

section Names

/-- All named cells that were written have names of one kind. -/
def Memory.Names (p : String → Prop) (m : Memory) : Prop :=
  ∀ x v, m.written (.named x) = some v → p x

variable {p : String → Prop}

theorem Memory.names_empty :
    Memory.empty.Names p := by
  intro x v h
  simp [written, empty] at h

/-- Storing to a cell adds no name but that of the cell. -/
theorem Memory.Stores.names
    {m m' : Memory}
    {r : Reference}
    {value : Int64}
    (h : m.Stores (r.cell m) value m')
    (hr : r.WellNamed)
    (hp : ∀ x, IsIdentifier x.toList → p x)
    (hm : m.Names p) :
    m'.Names p := by
  intro x v hx
  by_cases hcell : Cell.named x = r.cell m
  · cases r with
    | current => cases hcell
    | relative offset => cases hcell
    | named y =>
        cases hcell
        exact hp x hr
  · have hother := h.written_other _ hcell
    exact hm x v (hother.symm.trans hx)

/-- The names in memory come from operations that were read. -/
theorem Operation.Changes.names
    {s : Scope}
    {maxDepth : Nat}
    {out out' : Sink}
    {op : Operation}
    {answer : Option Bool}
    {memory : Memory}
    (h : Changes s maxDepth out op answer memory out')
    (hop : op.Readable)
    (hp : ∀ x, IsIdentifier x.toList → p x)
    (hmemory : s.memory.Names p) :
    memory.Names p := by
  cases h with
  | set _ hstores => exact hstores.names hop.1 hp hmemory
  | increment _ hstores => exact hstores.names hop hp hmemory
  | decrement _ hstores => exact hstores.names hop hp hmemory
  | output => exact hmemory
  | check => exact hmemory
  | shift => exact hmemory

theorem Operation.names_of_effect
    {text : String}
    {m : Memory}
    {mode : AddressingMode}
    {maxDepth : Nat}
    {op : Operation}
    {eff : Effect}
    (hparse : parse text = .ok op)
    (heffect : op.effect ⟨m, mode⟩ maxDepth = .ok eff)
    (hp : ∀ x, IsIdentifier x.toList → p x)
    (hm : m.Names p) :
    (eff.applyTo m).Names p := by
  have hchanges := changes_of_effect heffect (Sink.write_unlimited .empty eff.output)
  exact hchanges.names (readable_of_parse hparse) hp hm

end Names

namespace Memory

/-- All named cells that were written have identifiers as names. -/
def WellNamed (m : Memory) : Prop :=
  m.Names fun x => IsIdentifier x.toList

/-- Operations lead from the empty memory to this one.  Each of them is done in some mode, with some
limit on the depth of expressions and some output, and may fail. -/
inductive Reached : Memory → Prop
  | empty :
      Reached .empty
  | perform
      {m : Memory}
      (h : Reached m)
      (text : String)
      (mode : AddressingMode)
      (maxDepth : Nat)
      (out : Sink) :
      Reached (Operation.perform text ⟨m, mode⟩ maxDepth out).memory

theorem Reached.wellNamed
    {m : Memory}
    (h : m.Reached) :
    m.WellNamed := by
  induction h with
  | empty => exact names_empty
  | @perform m _ text mode maxDepth out ih =>
      rcases Operation.memory_perform text ⟨m, mode⟩ maxDepth out with
        hsame | ⟨op, eff, hparse, heffect, hmemory⟩
      · rwa [hsame]
      · rw [hmemory]
        exact Operation.names_of_effect hparse heffect (fun _ hx => hx) ih

theorem Reached.exists_updates
    {m : Memory}
    (h : m.Reached) :
    ∃ us, m = after us := by
  induction h with
  | empty => exact ⟨[], rfl⟩
  | @perform m _ text mode maxDepth out ih =>
      rcases Operation.memory_perform text ⟨m, mode⟩ maxDepth out with
        hsame | ⟨op, eff, -, -, hmemory⟩
      · rwa [hsame]
      · obtain ⟨us, rfl⟩ := ih
        obtain ⟨vs, hvs⟩ := eff.exists_updates (after us)
        rw [hmemory, hvs]
        exact ⟨us ++ vs, List.foldl_append.symm⟩

end Memory

namespace Cell

/-- A tape cell, or a named one whose name is an identifier. -/
def WellNamed : Cell → Prop
  | tape _ => True
  | named name => IsIdentifier name.toList

def label : Cell → List Char
  | tape address => '[' :: ((Decimal.ofWord address).toList ++ [']'])
  | named name => name.toList

/-- What a snapshot says of a cell. -/
def entry (cell : Cell) (value : Int64) : List Char :=
  cell.label ++ '=' :: (Decimal.ofWord value).toList

section Entries

variable {cell other : Cell}
variable {v w : Int64}

theorem notMem_label
    {c : Char}
    (h : cell.WellNamed)
    (hword : isWordChar c = false)
    (hc : c ∉ ['-', '[', ']']) :
    c ∉ cell.label := by
  intro hmem
  cases cell with
  | tape a =>
      have hdigit : c.isDigit = false := by
        simp only [isWordChar, Char.isAlphanum, Bool.or_eq_false_iff] at hword
        exact hword.1.2
      obtain ⟨hsign, hopening, hclosing⟩ : c ≠ '-' ∧ c ≠ '[' ∧ c ≠ ']' := by
        simpa using hc
      simp [label, hopening, hclosing, Decimal.notMem_ofWord hdigit hsign] at hmem
  | named x =>
      have hx := IsIdentifier.isWordChar h c hmem
      rw [hword] at hx
      cases hx

theorem equals_notMem_label
    (h : cell.WellNamed) :
    '=' ∉ cell.label :=
  notMem_label h (by decide) (by decide)

theorem space_notMem_entry
    (h : cell.WellNamed) :
    ' ' ∉ cell.entry v := by
  have hlabel : ' ' ∉ cell.label := notMem_label h (by decide) (by decide)
  have hvalue : ' ' ∉ (Decimal.ofWord v).toList := Decimal.notMem_ofWord (by decide) (by decide) v
  simp [entry, hlabel, hvalue]

/-- An address in brackets is no name. -/
theorem not_isIdentifier_label
    (a : Int64) :
    ¬ IsIdentifier (tape a).label :=
  fun h => absurd h.1 (by decide)

theorem label_inj
    (h : cell.WellNamed)
    (h' : other.WellNamed)
    (heq : cell.label = other.label) :
    cell = other := by
  cases cell with
  | tape a =>
      cases other with
      | tape b =>
          have hwords := List.append_cancel_right (List.cons.inj heq).2
          rw [Decimal.ofWord_injective (String.toList_inj.mp hwords)]
      | named y =>
          have hy : IsIdentifier (tape a).label := heq ▸ h'
          exact absurd hy (not_isIdentifier_label a)
  | named x =>
      cases other with
      | tape b =>
          have hx : IsIdentifier (tape b).label := heq ▸ h
          exact absurd hx (not_isIdentifier_label b)
      | named y => rw [String.toList_inj.mp heq]

/-- The cell and the value are known from what a snapshot says of the cell. -/
theorem entry_inj
    (h : cell.WellNamed)
    (h' : other.WellNamed)
    (heq : cell.entry v = other.entry w) :
    cell = other ∧ v = w := by
  have hcut := cutFirst_append (equals_notMem_label h) (Decimal.ofWord v).toList
  have hcut' := cutFirst_append (equals_notMem_label h') (Decimal.ofWord w).toList
  have hparts := hcut.symm.trans ((congrArg (cutFirst '=') heq).trans hcut')
  simp only [Option.some.injEq, Prod.mk.injEq] at hparts
  exact ⟨label_inj h h' hparts.1, Decimal.ofWord_injective (String.toList_inj.mp hparts.2)⟩

end Entries

end Cell

namespace Memory

/-- The written cells with their values, those of the tape before the named ones. -/
def entries (m : Memory) : List (Cell × Int64) :=
  m.cells.map (fun e => (.tape e.1, e.2)) ++ m.namedCells.map fun e => (.named e.1, e.2)

/-- The parts of a snapshot that spaces set apart. -/
def parts (m : Memory) : List (List Char) :=
  ("ptr=" ++ Decimal.ofWord m.pointer).toList :: m.entries.map fun e => e.1.entry e.2

section Snapshots

variable {m m' : Memory}

theorem mem_entries_iff
    {cell : Cell}
    {v : Int64} :
    (cell, v) ∈ m.entries ↔ m.written cell = some v := by
  cases cell with
  | tape a => simp [entries, mem_cells_iff]
  | named x => simp [entries, mem_namedCells_iff]

theorem WellNamed.of_mem_entries
    (h : m.WellNamed)
    {e : Cell × Int64}
    (he : e ∈ m.entries) :
    e.1.WellNamed := by
  obtain ⟨cell, v⟩ := e
  cases cell with
  | tape a => trivial
  | named x => exact h x v (mem_entries_iff.mp he)

theorem toList_snapshot
    (m : Memory) :
    m.snapshot.toList =
      ("ptr=" ++ Decimal.ofWord m.pointer).toList ++
        (m.entries.map fun e => e.1.entry e.2).flatMap (' ' :: ·) := by
  have hcells (e : Int64 × Int64) :
      (cellText e).toList = ' ' :: (Cell.tape e.1).entry e.2 := by
    simp [cellText, Cell.entry, Cell.label]
  have hnamed (e : String × Int64) :
      (namedCellText e).toList = ' ' :: (Cell.named e.1).entry e.2 := by
    simp [namedCellText, Cell.entry, Cell.label]
  simp only [snapshot, entries, String.toList_append, String.toList_join, List.map_append,
    List.flatMap_append, List.flatMap_map, hcells, hnamed, List.append_assoc]

/-- Spaces stand between the parts of a snapshot and nowhere else. -/
theorem WellNamed.splits_snapshot
    (h : m.WellNamed) :
    Splits ' ' m.snapshot.toList m.parts := by
  rw [toList_snapshot]
  apply splits_append_flatMap
  · have hpointer := Decimal.notMem_ofWord (c := ' ') (by decide) (by decide) m.pointer
    simp [hpointer]
  · intro q hq
    obtain ⟨e, he, rfl⟩ := List.mem_map.mp hq
    exact Cell.space_notMem_entry (h.of_mem_entries he)

theorem WellNamed.parts_eq_of_snapshot_eq
    (h : m.WellNamed)
    (h' : m'.WellNamed)
    (heq : m.snapshot = m'.snapshot) :
    m.parts = m'.parts := by
  rw [← splits_iff.mp h.splits_snapshot, heq, splits_iff.mp h'.splits_snapshot]

theorem pointer_eq_of_parts_eq
    (heq : m.parts = m'.parts) :
    m.pointer = m'.pointer := by
  have hpointer := (List.cons.inj heq).1
  rw [String.toList_append, String.toList_append] at hpointer
  exact Decimal.ofWord_injective (String.toList_inj.mp (List.append_cancel_left hpointer))

theorem WellNamed.written_of_parts_eq
    (h : m.WellNamed)
    (h' : m'.WellNamed)
    (heq : m.parts = m'.parts)
    {cell : Cell}
    {v : Int64}
    (hwritten : m.written cell = some v) :
    m'.written cell = some v := by
  have he : (cell, v) ∈ m.entries := mem_entries_iff.mpr hwritten
  -- Some cell of the other memory has the same text, and a text belongs to one cell only.
  have htext : cell.entry v ∈ m'.entries.map fun e => e.1.entry e.2 := by
    rw [← (List.cons.inj heq).2]
    exact List.mem_map.mpr ⟨_, he, rfl⟩
  obtain ⟨⟨other, w⟩, he', hentry⟩ := List.mem_map.mp htext
  obtain ⟨rfl, rfl⟩ := Cell.entry_inj (h'.of_mem_entries he') (h.of_mem_entries he) hentry
  exact mem_entries_iff.mp he'

/-- A memory is its pointer and what was written to its cells. -/
theorem eq_of_written_eq
    (hpointer : m.pointer = m'.pointer)
    (hwritten : ∀ cell, m.written cell = m'.written cell) :
    m = m' := by
  -- Maps with the same values are equal, whatever order their keys were inserted in.
  have htape : m.tape = m'.tape := Std.ExtTreeMap.ext_getElem? fun a => hwritten (.tape a)
  have hnames : m.names = m'.names := Std.ExtTreeMap.ext_getElem? fun x => hwritten (.named x)
  cases m
  cases m'
  cases htape
  cases hnames
  cases hpointer
  rfl

theorem WellNamed.snapshot_eq_iff
    (h : m.WellNamed)
    (h' : m'.WellNamed) :
    m.snapshot = m'.snapshot ↔
      m.pointer = m'.pointer ∧ ∀ cell, m.written cell = m'.written cell := by
  constructor
  · intro heq
    have hparts := h.parts_eq_of_snapshot_eq h' heq
    refine ⟨pointer_eq_of_parts_eq hparts, fun cell => Option.ext fun v => ⟨?_, ?_⟩⟩
    · exact h.written_of_parts_eq h' hparts
    · exact h'.written_of_parts_eq h hparts.symm
  · rintro ⟨hpointer, hwritten⟩
    rw [eq_of_written_eq hpointer hwritten]

end Snapshots

/-- Snapshots are canonical and unambiguous.  The memories that operations lead to have identifiers
as names, and two of them have the same snapshot exactly if they have the same pointer and the same
written cells with the same values, on the tape and among the named cells.

Each of them was made by updates, and their order is of no account: what counts is the sum of the
shifts and the last value that was written to each cell. -/
theorem snapshot_eq_iff_same_cells
    {m m' : Memory}
    (h : m.Reached)
    (h' : m'.Reached) :
    (m.WellNamed ∧ m'.WellNamed) ∧
    (m.snapshot = m'.snapshot ↔
      m.pointer = m'.pointer ∧
      (∀ a, m.written (.tape a) = m'.written (.tape a)) ∧
      ∀ x, m.written (.named x) = m'.written (.named x)) ∧
    (∃ us us', m = after us ∧ m' = after us') ∧
    ∀ us us',
      m = after us →
      m' = after us' →
      (m.snapshot = m'.snapshot ↔
        Int64.ofInt (us.map Update.delta).sum = Int64.ofInt (us'.map Update.delta).sum ∧
        ∀ cell, (valuesAt cell us).getLast? = (valuesAt cell us').getLast?) := by
  have hsnapshot := h.wellNamed.snapshot_eq_iff h'.wellNamed
  obtain ⟨vs, hvs⟩ := h.exists_updates
  obtain ⟨vs', hvs'⟩ := h'.exists_updates
  refine ⟨⟨h.wellNamed, h'.wellNamed⟩, ?_, ⟨vs, vs', hvs, hvs'⟩, ?_⟩
  · have hcells :
        (∀ cell, m.written cell = m'.written cell) ↔
          (∀ a, m.written (.tape a) = m'.written (.tape a)) ∧
          ∀ x, m.written (.named x) = m'.written (.named x) := by
      constructor
      · exact fun hall => ⟨fun a => hall (.tape a), fun x => hall (.named x)⟩
      · rintro ⟨htape, hnamed⟩ (a | x)
        · exact htape a
        · exact hnamed x
    rw [hsnapshot, hcells]
  · rintro us us' rfl rfl
    simpa only [pointer_after, written_after] using hsnapshot

/-- A space and an equals sign in a name imitate a cell that was not written. -/
example :
    (Memory.empty.setNamed "x=1 y" 2).snapshot =
      ((Memory.empty.setNamed "x" 1).setNamed "y" 2).snapshot := by
  decide +kernel

/-- Reads and does operations in the named mode, one after the other. -/
def doing (texts : List String) : Memory :=
  texts.foldl (fun m text => (Operation.perform text ⟨m, .named⟩ 256 .unlimited).memory) .empty

theorem reached_doing
    (texts : List String) :
    (doing texts).Reached := by
  unfold doing
  induction texts using List.reverseRecOn with
  | nil => exact .empty
  | append_singleton texts text ih =>
      rw [List.foldl_concat]
      exact ih.perform text .named 256 .unlimited

/-- Three cells, each of them written once. -/
def threeCells : Memory :=
  doing ["SET(y, 2)", "SET(x, -1)", "SHIFT(>)", "SET(0)"]

/-- The same cells in another order, with a value in between and a destination that is no name. -/
def reordered : Memory :=
  doing ["SHIFT(>)", "SET(7)", "SET(0)", "DECREMENT(x)", "SET(x y, 5)", "SET(y, 2)"]

/-- The same cells but the one that holds zero. -/
def twoCells : Memory :=
  doing ["SET(y, 2)", "SET(x, -1)", "SHIFT(>)"]

/-- Snapshots do not show the order of writes, and they tell a zero that was written from that of a
cell which was not. -/
theorem snapshots_of_three_memories :
    (threeCells.Reached ∧ reordered.Reached ∧ twoCells.Reached) ∧
    (threeCells.snapshot = reordered.snapshot ∧
      threeCells.pointer = reordered.pointer ∧
      (∀ a, threeCells.written (.tape a) = reordered.written (.tape a)) ∧
      ∀ x, threeCells.written (.named x) = reordered.written (.named x)) ∧
    threeCells.get 1 = twoCells.get 1 ∧
    threeCells.snapshot ≠ twoCells.snapshot := by
  have hthree : threeCells.Reached := reached_doing _
  have hreordered : reordered.Reached := reached_doing _
  have htwo : twoCells.Reached := reached_doing _
  have hsame : threeCells.snapshot = reordered.snapshot := by
    decide +kernel
  have hget : threeCells.get 1 = twoCells.get 1 := by
    decide +kernel
  have hwritten : threeCells.written (.tape 1) ≠ twoCells.written (.tape 1) := by
    decide +kernel
  obtain ⟨-, horder, -, -⟩ := snapshot_eq_iff_same_cells hthree hreordered
  obtain ⟨-, hzero, -, -⟩ := snapshot_eq_iff_same_cells hthree htwo
  refine ⟨⟨hthree, hreordered, htwo⟩, ⟨hsame, horder.mp hsame⟩, hget, fun hsnapshot => ?_⟩
  exact hwritten ((hzero.mp hsnapshot).2.1 1)

end Memory
end GraphMachine
