import GraphMachine.Proofs.Operation.Frame
import GraphMachine.Proofs.Operation.Moves
import GraphMachine.Proofs.Operation.ShortForms
import GraphMachine.Proofs.Run.Visits

/-!
# Where the pointer comes to stand

Only moves change the pointer, and no move fails once it is read.  So at every point of a run the
pointer is the sum of the arrows of all moves so far, as a word.  The sum is over the integers:
adding words wraps around, and it makes no difference whether this is done in each step or once at
the end.
-/

namespace GraphMachine

open Text

namespace Operation

/-- How far an operation moves the pointer. -/
def delta : Operation → Int64
  | shift delta => delta
  | _ => 0

/-- Operations change the pointer by their moves alone. -/
theorem Changes.pointer_eq
    {s : Scope}
    {maxDepth : Nat}
    {out out' : Sink}
    {op : Operation}
    {answer : Option Bool}
    {memory : Memory}
    (h : Changes s maxDepth out op answer memory out') :
    memory.pointer = s.memory.pointer + op.delta := by
  cases h with
  | set _ hmemory => simp [delta, hmemory.pointer_eq]
  | increment _ hmemory => simp [delta, hmemory.pointer_eq]
  | decrement _ hmemory => simp [delta, hmemory.pointer_eq]
  | output => simp [delta]
  | check => simp [delta]
  | shift => rfl

theorem pointer_of_effect
    {s : Scope}
    {maxDepth : Nat}
    {op : Operation}
    {eff : Effect}
    (h : op.effect s maxDepth = .ok eff) :
    (eff.applyTo s.memory).pointer = s.memory.pointer + op.delta :=
  (changes_of_effect h (Sink.write_unlimited .empty eff.output)).pointer_eq

end Operation

/-- How far a node is meant to move the pointer: by the arrows in the argument of its operation, if
this is a move that can be read. -/
def Node.netMoves (n : Node) : Int :=
  match n.operation with
  | none => 0
  | some text =>
      match Operation.parse text with
      | .ok (.shift _) => Operation.netMoves (Operation.argumentOf text)
      | _ => 0

namespace Node

variable {n : Node}
variable {text : String}

theorem netMoves_of_error
    {err : OperationError}
    (h : n.operation = some text)
    (hparse : Operation.parse text = .error err) :
    n.netMoves = 0 := by
  simp only [netMoves, h, hparse]

/-- An operation that is read moves the pointer as far as its node is meant to. -/
theorem ofInt_netMoves
    {op : Operation}
    (h : n.operation = some text)
    (hparse : Operation.parse text = .ok op) :
    Int64.ofInt n.netMoves = op.delta := by
  cases op with
  | shift delta =>
      simp only [netMoves, h, hparse]
      exact (Operation.delta_of_parse hparse).symm
  | set target expression => simp [netMoves, h, hparse, Operation.delta]
  | increment target => simp [netMoves, h, hparse, Operation.delta]
  | decrement target => simp [netMoves, h, hparse, Operation.delta]
  | output printed => simp [netMoves, h, hparse, Operation.delta]
  | check condition => simp [netMoves, h, hparse, Operation.delta]

end Node

namespace Run

/-- A node moves the pointer by its arrows, whatever becomes of its operation. -/
theorem pointer_attempt
    (o : Options)
    (n : Node)
    (memory : Memory) :
    (attempt o n memory).memory.pointer = memory.pointer + Int64.ofInt n.netMoves := by
  cases hoperation : n.operation with
  | none =>
      simp [attempt, Node.netMoves, hoperation]
  | some text =>
      cases hparse : Operation.parse text with
      | error err =>
          simp [attempt, hoperation, hparse, Node.netMoves_of_error hoperation hparse]
      | ok op =>
          rw [Node.ofInt_netMoves hoperation hparse]
          cases heffect : op.effect ⟨memory, o.mode⟩ o.maxDepth with
          | ok eff =>
              simp only [attempt, hoperation, hparse, heffect]
              exact Operation.pointer_of_effect heffect
          | error err =>
              -- A move never fails, so this operation is none.
              have hdelta : op.delta = 0 := by
                cases op with
                | shift delta => cases heffect
                | set target expression => rfl
                | increment target => rfl
                | decrement target => rfl
                | output printed => rfl
                | check condition => rfl
              simp [attempt, hoperation, hparse, heffect, hdelta]

namespace Session

variable {s after : Session}
variable {executed : Nat}
variable {result : Except RunError Report}

theorem Ends.pointer_eq
    (h : s.Ends executed result after) :
    after.memory.pointer =
      Int64.ofInt ((s.visits executed).map fun v => v.node.netMoves).sum := by
  apply h.visits_induction (P := fun vs memory _ =>
    memory.pointer = Int64.ofInt (vs.map fun v => v.node.netMoves).sum)
  · rfl
  · intro vs v m _ hleaves hvs
    rw [hleaves.memory_eq, pointer_attempt, hvs, ← Int64.ofInt_add]
    simp

theorem Ends.pointer_report
    (h : s.Ends executed result after)
    {report : Report}
    (hresult : result = .ok report) :
    report.pointer = after.memory.pointer := by
  obtain ⟨fuel, final, halt, -, -, hconclude⟩ := h
  obtain ⟨rfl, rfl⟩ := Prod.ext_iff.mp hconclude
  cases halt with
  | ok name =>
      cases hresult
      rfl
  | error err => cases hresult

/-- The pointer is moved by moves alone, and by the right amount.  After every run it is, as a word,
the sum of the arrows to the right less the arrows to the left over all executed nodes whose
operation is a move that can be read.  A move can be read exactly if its argument, without the white
space and the quotes around it, has nothing but arrows and white space, and else the error names the
first other character. -/
theorem pointer_moved_by_arrows :
    (∀ (s : Session) (executed : Nat) (result : Except RunError Report) (after : Session),
      s.Ends executed result after →
      (s.visits executed).length = executed ∧
      (∀ i v, (s.visits executed)[i]? = some v → s.Executes i v.machine v.node) ∧
      after.memory.pointer =
        Int64.ofInt ((s.visits executed).map fun v => v.node.netMoves).sum ∧
      ∀ report, result = .ok report → report.pointer = after.memory.pointer) ∧
    ∀ (text : String) (l : Call.Layout) (moves : List Char),
      l.text = text.toList →
      "SHIFT".toList = l.keyword →
      Unquotes (trim l.argument) moves →
      (∀ op,
        Operation.parse text = .ok op ↔
          op = .shift (Int64.ofInt (l.argument.count '>' - l.argument.count '<')) ∧
          ∀ c ∈ moves, Operation.isMove c = true) ∧
      ∀ err,
        Operation.parse text = .error err ↔
          ∃ before c behind,
            moves = before ++ c :: behind ∧
            (∀ d ∈ before, Operation.isMove d = true) ∧
            Operation.isMove c = false ∧
            err = .invalidArgument (.notAMove c) := by
  refine ⟨?_, ?_⟩
  · intro s executed result after h
    exact ⟨h.length_visits, fun i v hv => executes_of_getElem?_visits hv, h.pointer_eq,
      fun report => h.pointer_report⟩
  · intro text l moves hl hkeyword hmoves
    obtain rfl : Operation.arrows l.argument = moves := unquotes_iff.mp hmoves
    have hparse : Operation.parse text = Operation.ofCall .shift l.argument :=
      Operation.parse_of_keyword hl hkeyword
    rw [hparse]
    exact ⟨fun op => Operation.ofCall_shift_eq_ok_iff,
      fun err => Operation.ofCall_shift_eq_error_iff⟩

/-- A program that goes two cells to the right, fails to go on, and goes three cells back. -/
def threeShifts : Session :=
  .new
    (Program.parse
      "<start>[on]\x7bSHIFT('> >')\x7d\n<on>[back]\x7bSHIFT(>x)\x7d\n<back>\x7bSHIFT(<<<)\x7d")
    .standard .unlimited .off

/-- The move that cannot be read does not count, though there is an arrow in it. -/
theorem threeShifts_pointer :
    (threeShifts.visits 3).map (fun v => v.node.netMoves) = [2, 0, -3] ∧
      (∃ after,
        threeShifts.Ends 3
          (.ok ⟨3, "back", -1,
            #[⟨2, "on", some ⟨37, 46⟩, .invalidArgument (.notAMove 'x')⟩]⟩) after ∧
        after.memory.pointer = -1) ∧
      Operation.parse "SHIFT('> >')" = .ok (.shift 2) ∧
      Operation.parse "SHIFT(>x)" = .error (.invalidArgument (.notAMove 'x')) := by
  obtain ⟨hends, hparse⟩ := pointer_moved_by_arrows
  have hmoves : (threeShifts.visits 3).map (fun v => v.node.netMoves) = [2, 0, -3] := by
    decide +kernel
  have hresult :
      (threeShifts.runWithin 3).map Prod.fst =
        some (.ok ⟨3, "back", -1,
          #[⟨2, "on", some ⟨37, 46⟩, .invalidArgument (.notAMove 'x')⟩]⟩) := by
    decide +kernel
  obtain ⟨⟨result, after⟩, hrun, rfl⟩ := Option.map_eq_some_iff.mp hresult
  have hrest := ends_of_runWithin_ok hrun
  refine ⟨hmoves, ⟨after, hrest, ?_⟩, ?_, ?_⟩
  · obtain ⟨-, -, hpointer, -⟩ := hends _ _ _ _ hrest
    rw [hpointer, hmoves]
    rfl
  · have hquotes : Unquotes (trim (Keyword.shift.layout "'> >'").argument) "> >".toList :=
      unquotes_iff.mpr (by decide)
    exact ((hparse _ (Keyword.shift.layout "'> >'") _ (by decide) rfl hquotes).1 _).mpr
      ⟨by decide, List.all_eq_true.mp (by decide)⟩
  · have hquotes : Unquotes (trim (Keyword.shift.layout ">x").argument) ">x".toList :=
      unquotes_iff.mpr (by decide)
    exact ((hparse _ (Keyword.shift.layout ">x") _ (by decide) rfl hquotes).2 _).mpr
      ⟨['>'], 'x', [], by decide, List.all_eq_true.mp (by decide), by decide, rfl⟩

end Session
end Run
end GraphMachine
