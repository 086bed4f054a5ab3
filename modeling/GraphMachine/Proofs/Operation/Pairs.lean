import GraphMachine.Proofs.Operation.Reads

/-!
# Operations on two memories

Operations are done one after the other on two memories side by side.  A relation between memories
is kept by them if related memories read the same and if every effect leads to related memories
again.  Then all operations give the same answers, the same errors and the same output.
-/

namespace GraphMachine
namespace Operation

/-- Reads and does operations one after the other, and says of each how it ended.  An operation that
fails does not stop the others. -/
def performAll (mode : AddressingMode) (maxDepth : Nat) :
    List String → Memory → Sink → List Done
  | [], _, _ => []
  | text :: texts, memory, out =>
      let done := perform text ⟨memory, mode⟩ maxDepth out
      done :: performAll mode maxDepth texts done.memory done.out

/-- Two operations ended in the same way, with memories that are related. -/
structure Done.Paired (R : Memory → Memory → Prop) (d d' : Done) : Prop where
  result_eq : d'.result = d.result
  out_eq : d'.out = d.out
  memory : R d.memory d'.memory

/-- A relation between memories that operations keep in a mode. -/
structure Keeps (mode : AddressingMode) (R : Memory → Memory → Prop) : Prop where
  agrees : ∀ m m', R m m' → Scope.Agrees (fun _ => False) ⟨m, mode⟩ ⟨m', mode⟩
  applyTo : ∀ m m' (eff : Effect),
    R m m' → eff.Permitted mode → R (eff.applyTo m) (eff.applyTo m')

section Pairs

variable {mode : AddressingMode}
variable {R : Memory → Memory → Prop}
variable {m m' : Memory}

theorem Keeps.paired_execute
    (h : Keeps mode R)
    (hm : R m m')
    (op : Operation)
    (maxDepth : Nat)
    (out : Sink) :
    Done.Paired R (op.execute ⟨m, mode⟩ maxDepth out) (op.execute ⟨m', mode⟩ maxDepth out) := by
  have heffect : op.effect ⟨m', mode⟩ maxDepth = op.effect ⟨m, mode⟩ maxDepth :=
    (agrees_effect (h.agrees m m' hm) maxDepth op).eq fun _ => False.elim
  rw [execute_eq, execute_eq, heffect]
  cases hdone : op.effect ⟨m, mode⟩ maxDepth with
  | error err =>
      exact ⟨rfl, rfl, hm⟩
  | ok eff =>
      simp only
      rcases out.write eff.output with ⟨fits, written⟩
      cases fits with
      | true => exact ⟨rfl, rfl, h.applyTo m m' eff hm (permitted_of_effect hdone)⟩
      | false => exact ⟨rfl, rfl, hm⟩

theorem Keeps.paired_perform
    (h : Keeps mode R)
    (hm : R m m')
    (text : String)
    (maxDepth : Nat)
    (out : Sink) :
    Done.Paired R (perform text ⟨m, mode⟩ maxDepth out) (perform text ⟨m', mode⟩ maxDepth out) := by
  rw [perform_eq, perform_eq]
  cases parse text with
  | error err => exact ⟨rfl, rfl, hm⟩
  | ok op => exact h.paired_execute hm op maxDepth out

/-- Related memories stay related through all operations, which end in the same way. -/
theorem Keeps.paired_performAll
    (h : Keeps mode R)
    (hm : R m m')
    (maxDepth : Nat)
    (texts : List String)
    (out : Sink) :
    List.Forall₂ (Done.Paired R) (performAll mode maxDepth texts m out)
      (performAll mode maxDepth texts m' out) := by
  induction texts generalizing m m' out with
  | nil =>
      exact .nil
  | cons text texts ih =>
      have hdone := h.paired_perform hm text maxDepth out
      simp only [performAll, hdone.out_eq]
      exact .cons hdone (ih hdone.memory _)

end Pairs

end Operation
end GraphMachine
