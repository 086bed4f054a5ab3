import GraphMachine.Proofs.Operation.Calls
import GraphMachine.Proofs.Reference.Cells
import GraphMachine.Proofs.Sink
import GraphMachine.Run.Machine

/-!
# The one effect of an operation

Everything in an operation that can fail, the output apart, comes before everything that changes
memory or output.  So an operation can be taken in two parts: it first finds out what to do, and
then does it, by storing a value, writing a line, answering a test or moving the pointer.

`effect` is the first part, without any state.  Doing an operation step by step comes to the same as
finding its effect and applying it (`run_dispatch`), whatever the steps fail with.
-/

namespace GraphMachine

/-- The one thing that an operation does. -/
inductive Effect where
  | store (target : Reference) (value : Int64)
  | print (line : String)
  | answer (result : Bool)
  | move (delta : Int64)

namespace Effect

def applyTo (m : Memory) : Effect → Memory
  | store target value => target.store value m
  | print _ => m
  | answer _ => m
  | move delta => m.shift delta

def output : Effect → String
  | print line => line ++ "\n"
  | _ => ""

def result : Effect → Option Bool
  | answer b => some b
  | _ => none

/-- Stores a value, if the destination can be used. -/
def storing (s : Scope) (target : Reference) (value : Int64) : Except EvalError Effect :=
  (target.permit s.mode).map fun _ => .store target value

end Effect

namespace Operation

/-- What an operation does to a memory. -/
def effect (s : Scope) (maxDepth : Nat) : Operation → Except EvalError Effect
  | set target expression =>
      (evaluate s maxDepth expression).bind fun v => Effect.storing s target v.toWord
  | increment target => (target.read s).bind fun v => Effect.storing s target (v + 1)
  | decrement target => (target.read s).bind fun v => Effect.storing s target (v - 1)
  | output printed => (line s maxDepth printed).map Effect.print
  | check none => (Reference.current.read s).map fun v => Effect.answer (v != 0)
  | check (some condition) =>
      (evaluate s maxDepth condition).map fun v => Effect.answer v.toBool
  | shift delta => .ok (.move delta)

/-- What is logged about an operation after its effect. -/
def notes (m : Memory) (op : Operation) : Effect → List Event
  | .store target value => if op.keyword = .set then [.stored target value] else []
  | .print _ => []
  | .answer result => [.checked result]
  | .move delta => [.shifted delta m.pointer]

/-- How an operation ends, by its effect. -/
def outcome (op : Operation) (mode : AddressingMode) (maxDepth : Nat) (w : World) :
    Except OperationError (Option Bool) × World :=
  let events := w.events ++ [.dispatched op.keyword]
  match op.effect ⟨w.memory, mode⟩ maxDepth with
  | .error err => (.error (.eval err), ⟨w.memory, w.out, events⟩)
  | .ok eff =>
      match w.out.write eff.output with
      | (true, written) =>
          let memory := eff.applyTo w.memory
          (.ok eff.result, ⟨memory, written, events ++ op.notes memory eff⟩)
      | (false, written) => (.error .output, ⟨w.memory, written, events⟩)

section Steps

variable {α β : Type}
variable {mode : AddressingMode}

/-- What comes after steps that failed is not done. -/
theorem run_bind
    (x : Action α)
    (f : α → Action β)
    (w : World) :
    (x >>= f) w =
      match x w with
      | (.ok a, after) => f a after
      | (.error err, after) => (.error err, after) := by
  change (match x w with | (r, after) => ExceptT.bindCont f r after) = _
  rcases x w with ⟨r, after⟩
  cases r <;> rfl

end Steps

section Outcomes

variable {op : Operation}
variable {mode : AddressingMode}
variable {maxDepth : Nat}
variable {w : World}

theorem outcome_of_error
    {err : EvalError}
    (h : op.effect ⟨w.memory, mode⟩ maxDepth = .error err) :
    op.outcome mode maxDepth w =
      (.error (.eval err), ⟨w.memory, w.out, w.events ++ [.dispatched op.keyword]⟩) := by
  simp only [outcome, h]

theorem outcome_of_silent
    {eff : Effect}
    (h : op.effect ⟨w.memory, mode⟩ maxDepth = .ok eff)
    (hsilent : eff.output = "") :
    op.outcome mode maxDepth w =
      (.ok eff.result,
        ⟨eff.applyTo w.memory, w.out,
          w.events ++ [.dispatched op.keyword] ++ op.notes (eff.applyTo w.memory) eff⟩) := by
  simp only [outcome, h, hsilent, Sink.write_empty]

/-- An operation that stores a value which it has found out before.  Memory is changed after all
that can fail. -/
theorem run_storing
    {α : Type}
    {look : Scope → Except EvalError α}
    {target : Reference}
    {word : α → Int64}
    {rest : α → Action (Option Bool)}
    (heffect :
      op.effect ⟨w.memory, mode⟩ maxDepth =
        (look ⟨w.memory, mode⟩).bind fun v => Effect.storing ⟨w.memory, mode⟩ target (word v))
    (hrest : ∀ v after,
      rest v after =
        (.ok none,
          { after with
            events := after.events ++ op.notes after.memory (.store target (word v)) })) :
    (Action.consult mode look >>= fun v =>
        Action.change (target.assign mode (word v)) >>= fun _ => rest v)
        ⟨w.memory, w.out, w.events ++ [.dispatched op.keyword]⟩ =
      op.outcome mode maxDepth w := by
  rw [run_bind, Action.consult]
  cases hlook : look ⟨w.memory, mode⟩ with
  | error err =>
      rw [hlook] at heffect
      exact (outcome_of_error heffect).symm
  | ok v =>
      rw [hlook] at heffect
      simp only [Except.mapError]
      rw [run_bind, Action.change, Reference.run_assign]
      cases hpermit : target.permit mode with
      | error err =>
          have hfails : op.effect ⟨w.memory, mode⟩ maxDepth = .error err := by
            rw [heffect, Except.bind, Effect.storing, hpermit]
            rfl
          exact (outcome_of_error hfails).symm
      | ok _ =>
          have hstores : op.effect ⟨w.memory, mode⟩ maxDepth = .ok (.store target (word v)) := by
            rw [heffect, Except.bind, Effect.storing, hpermit]
            rfl
          rw [outcome_of_silent hstores rfl]
          exact hrest v _

end Outcomes

/-- The steps of an operation come to its effect. -/
theorem run_dispatch
    (op : Operation)
    (mode : AddressingMode)
    (maxDepth : Nat)
    (w : World) :
    (op.dispatch mode maxDepth).run.run w = op.outcome mode maxDepth w := by
  -- The first step logs the keyword; what follows depends on the operation.
  change (Action.log (.dispatched op.keyword) >>= _) w = _
  rw [run_bind]
  cases op with
  | set target expression => exact run_storing rfl fun _ _ => rfl
  | increment target => exact run_storing rfl fun _ _ => by simp [notes, keyword]; rfl
  | decrement target => exact run_storing rfl fun _ _ => by simp [notes, keyword]; rfl
  | output printed =>
      change (Action.consult mode _ >>= _) _ = _
      rw [run_bind, Action.consult]
      cases hline : line ⟨w.memory, mode⟩ maxDepth printed with
      | error err =>
          have hfails : (output printed).effect ⟨w.memory, mode⟩ maxDepth = .error err := by
            rw [effect, hline]
            rfl
          exact (outcome_of_error hfails).symm
      | ok text =>
          change (Action.writeLine text >>= _) _ = _
          rw [run_bind, Action.writeLine]
          simp only [outcome, effect, hline, Except.map, Effect.output]
          rcases w.out.write (text ++ "\n") with ⟨taken, written⟩
          cases taken with
          | true => simp [Effect.applyTo, Effect.result, notes]; rfl
          | false => rfl
  | check condition =>
      cases condition with
      | none =>
          have hanswers :
              (check none).effect ⟨w.memory, mode⟩ maxDepth =
                .ok (.answer (w.memory.current != 0)) := rfl
          rw [outcome_of_silent hanswers rfl]
          rfl
      | some condition =>
          change (Action.consult mode _ >>= _) _ = _
          rw [run_bind, Action.consult]
          cases hvalue : evaluate ⟨w.memory, mode⟩ maxDepth condition with
          | error err =>
              have hfails :
                  (check (some condition)).effect ⟨w.memory, mode⟩ maxDepth = .error err := by
                rw [effect, hvalue]
                rfl
              exact (outcome_of_error hfails).symm
          | ok v =>
              have hanswers :
                  (check (some condition)).effect ⟨w.memory, mode⟩ maxDepth =
                    .ok (.answer v.toBool) := by
                rw [effect, hvalue]
                rfl
              rw [outcome_of_silent hanswers rfl]
              rfl
  | shift delta =>
      have hmoves : (shift delta).effect ⟨w.memory, mode⟩ maxDepth = .ok (.move delta) := rfl
      rw [outcome_of_silent hmoves rfl]
      rfl

theorem execute_eq
    (op : Operation)
    (s : Scope)
    (maxDepth : Nat)
    (out : Sink) :
    op.execute s maxDepth out =
      match op.effect s maxDepth with
      | .error err => ⟨.error (.eval err), s.memory, out⟩
      | .ok eff =>
          match out.write eff.output with
          | (true, written) => ⟨.ok eff.result, eff.applyTo s.memory, written⟩
          | (false, written) => ⟨.error .output, s.memory, written⟩ := by
  rw [execute, Done.ofAction, run_dispatch, outcome]
  cases op.effect s maxDepth with
  | error err => rfl
  | ok eff =>
      simp only
      rcases out.write eff.output with ⟨taken, written⟩
      cases taken <;> rfl

theorem run_act_of_error
    {text : String}
    {err : OperationError}
    (h : parse text = .error err)
    (mode : AddressingMode)
    (maxDepth : Nat)
    (w : World) :
    (act mode maxDepth text).run.run w = (.error err, w) := by
  rw [act, h]
  rfl

theorem run_act_of_ok
    {text : String}
    {op : Operation}
    (h : parse text = .ok op)
    (mode : AddressingMode)
    (maxDepth : Nat)
    (w : World) :
    (act mode maxDepth text).run.run w = op.outcome mode maxDepth w := by
  rw [act, h]
  exact run_dispatch op mode maxDepth w

theorem perform_eq
    (text : String)
    (s : Scope)
    (maxDepth : Nat)
    (out : Sink) :
    perform text s maxDepth out =
      match parse text with
      | .error err => ⟨.error err, s.memory, out⟩
      | .ok op => op.execute s maxDepth out := by
  unfold perform act
  cases parse text <;> rfl

end Operation

/-- What a node comes to, by the effect of its operation. -/
theorem Run.perform_eq_effect
    (o : Options)
    (n : Node)
    (memory : Memory)
    (out : Sink) :
    perform o n memory out =
      match n.operation with
      | none => ⟨.answered none, memory, out, []⟩
      | some text =>
          match Operation.parse text with
          | .error err => ⟨.skipped err, memory, out, [.operationSkipped n.name n.line err]⟩
          | .ok op =>
              match op.effect ⟨memory, o.mode⟩ o.maxDepth with
              | .error err =>
                  ⟨.skipped (.eval err), memory, out,
                    [.dispatched op.keyword, .operationSkipped n.name n.line (.eval err)]⟩
              | .ok eff =>
                  match out.write eff.output with
                  | (true, written) =>
                      ⟨.answered eff.result, eff.applyTo memory, written,
                        .dispatched op.keyword :: op.notes (eff.applyTo memory) eff⟩
                  | (false, written) => ⟨.refused, memory, written, [.dispatched op.keyword]⟩ := by
  unfold perform
  cases n.operation with
  | none => rfl
  | some text =>
      simp only
      cases hparse : Operation.parse text with
      | error err =>
          rw [Operation.run_act_of_error hparse]
          cases err with
          | output => exact absurd hparse (Operation.parse_ne_output text)
          | _ => rfl
      | ok op =>
          rw [Operation.run_act_of_ok hparse]
          simp only [Operation.outcome]
          cases op.effect ⟨memory, o.mode⟩ o.maxDepth with
          | error err => rfl
          | ok eff =>
              simp only
              rcases out.write eff.output with ⟨taken, written⟩
              cases taken <;> rfl

end GraphMachine
