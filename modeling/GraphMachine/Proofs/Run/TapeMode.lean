import GraphMachine.Proofs.Operation.Pairs
import GraphMachine.Proofs.Run.Execution

/-!
# The tape mode without names

In the tape mode no operation reads a named cell or writes one.  So two memories with the same tape
and the same pointer cannot be told apart by operations, whatever named cells they have, and these
cells stay as they are.  A run starts with no named cells, and in the tape mode it ends with none.
-/

namespace GraphMachine

namespace Memory

/-- Two memories with the same tape and pointer, and with the given named cells. -/
structure SameTape (names names' : Std.ExtTreeMap String Int64) (m m' : Memory) : Prop where
  pointer_eq : m'.pointer = m.pointer
  tape_eq : m'.tape = m.tape
  names_eq : m.names = names
  names_eq' : m'.names = names'

variable {names names' : Std.ExtTreeMap String Int64}
variable {m m' : Memory}

/-- In the tape mode all references read the same. -/
theorem SameTape.agrees
    (h : SameTape names names' m m') :
    Scope.Agrees (fun _ => False) ⟨m, .tape⟩ ⟨m', .tape⟩ := by
  obtain ⟨tape, _, pointer⟩ := m
  obtain ⟨tape', _, pointer'⟩ := m'
  obtain ⟨rfl, rfl, -, -⟩ := h
  refine ⟨?_, fun r => .refl _⟩
  intro r
  cases r with
  | current => exact .inl rfl
  | relative offset => exact .inl rfl
  | named name => exact .inl rfl

/-- An effect that the tape mode allows changes both tapes alike and no named cell. -/
theorem SameTape.applyTo
    (h : SameTape names names' m m')
    {eff : Effect}
    (heff : eff.Permitted .tape) :
    SameTape names names' (eff.applyTo m) (eff.applyTo m') := by
  obtain ⟨tape, _, pointer⟩ := m
  obtain ⟨tape', _, pointer'⟩ := m'
  obtain ⟨rfl, rfl, rfl, rfl⟩ := h
  cases eff with
  | store target value =>
      cases target with
      | current => exact ⟨rfl, rfl, rfl, rfl⟩
      | relative offset => exact ⟨rfl, rfl, rfl, rfl⟩
      | named name => cases heff
  | print line => exact ⟨rfl, rfl, rfl, rfl⟩
  | answer result => exact ⟨rfl, rfl, rfl, rfl⟩
  | move delta => exact ⟨rfl, rfl, rfl, rfl⟩

end Memory

theorem Operation.keeps_sameTape
    (names names' : Std.ExtTreeMap String Int64) :
    Keeps .tape (Memory.SameTape names names') where
  agrees _ _ h := h.agrees
  applyTo _ _ _ h heff := h.applyTo heff

namespace Run

section Runs

variable {g : Graph}
variable {o : Options}

/-- In the tape mode the operation of a node leaves the named cells alone. -/
theorem names_attempt
    (hmode : o.mode = .tape)
    (n : Node)
    (memory : Memory) :
    (attempt o n memory).memory.names = memory.names := by
  cases hoperation : n.operation with
  | none =>
      simp only [attempt, hoperation]
  | some text =>
      cases hparse : Operation.parse text with
      | error err =>
          simp only [attempt, hoperation, hparse]
      | ok op =>
          cases heffect : op.effect ⟨memory, .tape⟩ o.maxDepth with
          | error err =>
              simp only [attempt, hoperation, hparse, hmode, heffect]
          | ok eff =>
              have hsame : Memory.SameTape memory.names memory.names memory memory :=
                ⟨rfl, rfl, rfl, rfl⟩
              have hafter := hsame.applyTo (Operation.permitted_of_effect heffect)
              simp only [attempt, hoperation, hparse, hmode, heffect, hafter.names_eq]

theorem Machine.names_step
    (hmode : o.mode = .tape)
    (m : Machine) :
    (m.step g o).machine.memory.names = m.memory.names := by
  rcases m.step_cases g o with ⟨halt, -, hstep⟩ | ⟨n, log, -, hstep⟩
  · rw [hstep]
    rfl
  · rw [hstep, memory_machine_proceed]
    exact names_attempt hmode n m.memory

/-- In the tape mode no run has a named cell at any time. -/
theorem Session.names_progress
    {s : Session}
    (hmode : s.options.mode = .tape)
    (fuel : Nat) :
    (s.progress fuel).machine.memory.names = ∅ := by
  apply Machine.invariant_machine_advance (P := fun m => m.memory.names = ∅)
  · intro m hm
    rw [Machine.names_step hmode, hm]
  · rfl

end Runs

namespace Session

/-- The tape mode ignores names.  Two memories with the same pointer and tape give the same answers,
errors and output in each of any operations, and have the same pointer and tape after it, while the
named cells of both stay as they are.  So every run in the tape mode ends without named cells. -/
theorem tape_ignores_names :
    (∀ (texts : List String) (maxDepth : Nat) (m m' : Memory) (out : Sink),
      m'.pointer = m.pointer →
      m'.tape = m.tape →
      List.Forall₂
        (fun d d' : Operation.Done =>
          d'.result = d.result ∧
          d'.out = d.out ∧
          d'.memory.pointer = d.memory.pointer ∧
          d'.memory.tape = d.memory.tape ∧
          d.memory.names = m.names ∧
          d'.memory.names = m'.names)
        (Operation.performAll .tape maxDepth texts m out)
        (Operation.performAll .tape maxDepth texts m' out)) ∧
    ∀ (s : Session) (executed : Nat) (result : Except RunError Report) (after : Session),
      s.options.mode = .tape →
      s.Ends executed result after →
      after.memory.namedCells = [] := by
  refine ⟨?_, ?_⟩
  · intro texts maxDepth m m' out hpointer htape
    have hsame : Memory.SameTape m.names m'.names m m' := ⟨hpointer, htape, rfl, rfl⟩
    have hpaired :=
      (Operation.keeps_sameTape m.names m'.names).paired_performAll hsame maxDepth texts out
    refine hpaired.imp ?_
    intro d d' h
    exact ⟨h.result_eq, h.out_eq, h.memory.pointer_eq, h.memory.tape_eq, h.memory.names_eq,
      h.memory.names_eq'⟩
  · rintro s executed result after hmode ⟨fuel, final, halt, hended, -, hconclude⟩
    obtain ⟨rfl, rfl⟩ := Prod.ext_iff.mp hconclude
    have hnames : final.memory.names = ∅ := by
      have hprogress := names_progress hmode fuel
      rw [hended] at hprogress
      exact hprogress
    rw [memory_conclude, Memory.namedCells, hnames]
    rfl

def bare : Memory :=
  Memory.empty.set 0 5

def bareWithNamedCell : Memory :=
  bare.setNamed "x" 7

/-- Operations that try to use the name in every way, and two that do not. -/
def probes : List String :=
  ["SET(x, 1)", "INCREMENT(x)", "OUTPUT('\x7bx\x7d')", "CHECK(x)", "DECREMENT",
    "CHECK(\x7b\x7d == 4)"]

/-- A program that tries to store under the name, and then counts down. -/
def probing : Session :=
  .new (Program.parse "<start>[a]\x7bSET(x, 1)\x7d\n<a>\x7bDECREMENT\x7d") .standard .unlimited .off

/-- The named cell has no part in the results and keeps its value, and the program makes no named
cell. -/
theorem bareWithNamedCell_like_bare :
    bareWithNamedCell.pointer = bare.pointer ∧
      bareWithNamedCell.tape = bare.tape ∧
      (Operation.performAll .tape 256 probes bare .unlimited).map Operation.Done.result =
        List.replicate 4 (.error (.eval (.namedMemoryDisabled "x"))) ++
          [.ok none, .ok (some true)] ∧
      List.Forall₂
        (fun d d' : Operation.Done =>
          d'.result = d.result ∧ d.memory.getNamed "x" = 0 ∧ d'.memory.getNamed "x" = 7)
        (Operation.performAll .tape 256 probes bare .unlimited)
        (Operation.performAll .tape 256 probes bareWithNamedCell .unlimited) ∧
      probing.options.mode = .tape ∧
      ∃ executed result after,
        probing.Ends executed result after ∧
        after.memory.current = -1 ∧
        after.memory.namedCells = [] := by
  have hpointer : bareWithNamedCell.pointer = bare.pointer := rfl
  have htape : bareWithNamedCell.tape = bare.tape := rfl
  have hmode : probing.options.mode = .tape := rfl
  obtain ⟨hoperations, hruns⟩ := tape_ignores_names
  have hresults :
      (Operation.performAll .tape 256 probes bare .unlimited).map Operation.Done.result =
        List.replicate 4 (.error (.eval (.namedMemoryDisabled "x"))) ++
          [.ok none, .ok (some true)] := by
    decide +kernel
  have hbare : bare.getNamed "x" = 0 := by decide
  have hBareWithNamedCell : bareWithNamedCell.getNamed "x" = 7 := by decide
  have hcurrent : (probing.runWithin 2).map (fun r => r.2.memory.current) = some (-1) := by
    decide +kernel
  obtain ⟨⟨result, after⟩, hrun, hafter⟩ := Option.map_eq_some_iff.mp hcurrent
  obtain ⟨executed, hends⟩ := exists_ends_of_runWithin hrun
  refine ⟨hpointer, htape, hresults, ?_, hmode, executed, result, after, hends, hafter,
    hruns probing executed result after hmode hends⟩
  refine (hoperations probes 256 bare bareWithNamedCell .unlimited hpointer htape).imp ?_
  rintro d d' ⟨hresult, -, -, -, hnames, hnames'⟩
  refine ⟨hresult, ?_, ?_⟩
  · rw [Memory.getNamed, hnames]
    exact hbare
  · rw [Memory.getNamed, hnames']
    exact hBareWithNamedCell

end Session
end Run
end GraphMachine
