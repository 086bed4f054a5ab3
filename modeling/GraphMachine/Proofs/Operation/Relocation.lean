import GraphMachine.Proofs.Operation.Pairs

/-!
# Relocated memory

Operations reach the tape only at distances from the pointer.  So if the pointer and all written
cells are moved by the same distance, around the end of the word range where need be, no operation
can tell: it gives the same answer or error and writes the same text, and the memory after it is
relocated by the same distance.

Addresses form a group under addition that wraps around.  Everything here follows from one equation,
`getElem?_tape_relocated`, which finds the cell of an address in the relocated tape.
-/

namespace GraphMachine

namespace Memory

/-- The same memory with the pointer and every written tape cell moved by a distance. -/
def relocated (d : Int64) (m : Memory) : Memory where
  tape := .ofList (m.cells.map fun (a, v) => (a + d, v))
  names := m.names
  pointer := m.pointer + d

section Relocation

variable (d : Int64)
variable (m : Memory)

@[simp] theorem pointer_relocated :
    (m.relocated d).pointer = m.pointer + d := by
  rfl

/-- The cell at an address comes from the address that lies the distance before it. -/
theorem getElem?_tape_relocated
    (a : Int64) :
    (m.relocated d).tape[a]? = m.tape[a - d]? := by
  have hdistinct :
      (m.cells.map fun (b, v) => (b + d, v)).Pairwise fun x y => ¬ compare x.1 y.1 = .eq := by
    rw [List.pairwise_map]
    refine Std.ExtTreeMap.distinct_keys_toList.imp ?_
    intro x y hne
    rw [Std.compare_eq_iff_eq] at hne ⊢
    rwa [Int64.add_left_inj]
  cases hcell : m.tape[a - d]? with
  | some v =>
      have hmem : (a - d, v) ∈ m.cells := Std.ExtTreeMap.mem_toList_iff_getElem?_eq_some.mpr hcell
      have hmoved : (a - d + d, v) ∈ m.cells.map fun (b, v) => (b + d, v) :=
        List.mem_map.mpr ⟨_, hmem, rfl⟩
      rw [Int64.sub_add_cancel] at hmoved
      exact Std.ExtTreeMap.getElem?_ofList_of_mem (Std.compare_eq_iff_eq.mpr rfl) hdistinct hmoved
  | none =>
      apply Std.ExtTreeMap.getElem?_ofList_of_contains_eq_false
      rw [Bool.eq_false_iff, ne_eq, List.contains_iff_mem]
      intro hmem
      obtain ⟨_, hmoved, rfl⟩ := List.mem_map.mp hmem
      obtain ⟨⟨b, v⟩, hcells, rfl⟩ := List.mem_map.mp hmoved
      rw [Int64.add_sub_cancel, Std.ExtTreeMap.mem_toList_iff_getElem?_eq_some.mp hcells] at hcell
      cases hcell

example :
    ((Memory.empty.set Int64.maxValue 5).relocated 1).cells = [(Int64.minValue, 5)] := by
  decide

theorem get_relocated
    (a : Int64) :
    (m.relocated d).get (a + d) = m.get a := by
  simp only [get, Std.ExtTreeMap.getD_eq_getD_getElem?, getElem?_tape_relocated,
    Int64.add_sub_cancel]

theorem addressAt_relocated
    (offset : Int64) :
    (m.relocated d).addressAt offset = m.addressAt offset + d := by
  simp only [addressAt, pointer_relocated, Int64.add_assoc, Int64.add_comm d]

theorem set_relocated
    (a v : Int64) :
    (m.relocated d).set (a + d) v = (m.set a v).relocated d := by
  have htape : ((m.relocated d).set (a + d) v).tape = ((m.set a v).relocated d).tape := by
    apply Std.ExtTreeMap.ext_getElem?
    intro b
    have haddress : a + d = b ↔ a = b - d := by
      rw [← Int64.add_left_inj (a := a) d, Int64.sub_add_cancel]
    simp only [getElem?_tape_relocated, set, Std.ExtTreeMap.getElem?_insert,
      Std.compare_eq_iff_eq, haddress]
  exact congrArg (Memory.mk · m.names (m.pointer + d)) htape

theorem setNamed_relocated
    (name : String)
    (v : Int64) :
    (m.relocated d).setNamed name v = (m.setNamed name v).relocated d := by
  rfl

theorem shift_relocated
    (delta : Int64) :
    (m.relocated d).shift delta = (m.shift delta).relocated d :=
  congrArg (Memory.mk _ m.names) (m.addressAt_relocated d delta)

end Relocation

end Memory

/-- All references read the same in a relocated memory. -/
theorem Reference.read_relocated
    (r : Reference)
    (d : Int64)
    (m : Memory)
    (mode : AddressingMode) :
    r.read ⟨m.relocated d, mode⟩ = r.read ⟨m, mode⟩ := by
  cases r with
  | current => exact congrArg Except.ok (m.get_relocated d m.pointer)
  | relative offset =>
      refine congrArg Except.ok ?_
      rw [Memory.addressAt_relocated, Memory.get_relocated]
  | named name => rfl

/-- An effect on a relocated memory is the relocated effect. -/
theorem Effect.applyTo_relocated
    (eff : Effect)
    (d : Int64)
    (m : Memory) :
    eff.applyTo (m.relocated d) = (eff.applyTo m).relocated d := by
  cases eff with
  | store target value =>
      cases target with
      | current => exact m.set_relocated d m.pointer value
      | relative offset =>
          simp only [applyTo, Reference.store, Memory.addressAt_relocated, Memory.set_relocated]
      | named name => exact m.setNamed_relocated d name value
  | print line => rfl
  | answer result => rfl
  | move delta => exact m.shift_relocated d delta

namespace Operation

/-- Does operations one after the other, and says of each how it ended.  An operation that fails
does not stop the others. -/
def executeAll (mode : AddressingMode) (maxDepth : Nat) :
    List Operation → Memory → Sink → List Done
  | [], _, _ => []
  | op :: ops, memory, out =>
      let done := op.execute ⟨memory, mode⟩ maxDepth out
      done :: executeAll mode maxDepth ops done.memory done.out

/-- The memory after operations that were done one after the other. -/
def memoryAfter (before : Memory) (dones : List Done) : Memory :=
  (dones.getLast?.map Done.memory).getD before

/-- The same end of an operation, with relocated memory. -/
def Done.relocated (d : Int64) (done : Done) : Done :=
  { done with memory := done.memory.relocated d }

theorem keeps_relocated
    (mode : AddressingMode)
    (d : Int64) :
    Keeps mode fun m m' => m' = m.relocated d where
  agrees m _ := by
    rintro rfl
    exact ⟨fun r => .inl (r.read_relocated d m mode), fun r => .refl _⟩
  applyTo m _ eff := by
    rintro rfl _
    exact eff.applyTo_relocated d m

/-- One operation on a relocated memory. -/
theorem execute_relocated
    (op : Operation)
    (d : Int64)
    (m : Memory)
    (mode : AddressingMode)
    (maxDepth : Nat)
    (out : Sink) :
    op.execute ⟨m.relocated d, mode⟩ maxDepth out =
      (op.execute ⟨m, mode⟩ maxDepth out).relocated d := by
  obtain ⟨hresult, hout, hmemory⟩ := (keeps_relocated mode d).paired_execute rfl op maxDepth out
  generalize op.execute ⟨m.relocated d, mode⟩ maxDepth out = done' at hresult hout hmemory
  obtain ⟨result, memory, out'⟩ := done'
  subst hresult hout hmemory
  rfl

theorem memoryAfter_relocated
    (d : Int64)
    (m : Memory)
    (dones : List Done) :
    memoryAfter (m.relocated d) (dones.map (Done.relocated d)) =
      (memoryAfter m dones).relocated d := by
  rw [memoryAfter, memoryAfter, List.getLast?_map]
  cases dones.getLast? with
  | none => rfl
  | some done => rfl

/-- Operations cannot observe absolute addresses.  On a relocated memory all operations give the
same answers and errors and write the same, one after the other, and the memory after each of them,
and so after all of them, is relocated by the same distance. -/
theorem executeAll_relocated
    (d : Int64)
    (mode : AddressingMode)
    (maxDepth : Nat)
    (ops : List Operation)
    (m : Memory)
    (out : Sink) :
    executeAll mode maxDepth ops (m.relocated d) out =
        (executeAll mode maxDepth ops m out).map (Done.relocated d) ∧
      memoryAfter (m.relocated d) (executeAll mode maxDepth ops (m.relocated d) out) =
        (memoryAfter m (executeAll mode maxDepth ops m out)).relocated d := by
  have hdones :
      executeAll mode maxDepth ops (m.relocated d) out =
        (executeAll mode maxDepth ops m out).map (Done.relocated d) := by
    induction ops generalizing m out with
    | nil =>
        rfl
    | cons op ops ih =>
        simp only [executeAll, execute_relocated, List.map_cons]
        exact congrArg _ (ih _ _)
  refine ⟨hdones, ?_⟩
  rw [hdones, memoryAfter_relocated]

end Operation
end GraphMachine
