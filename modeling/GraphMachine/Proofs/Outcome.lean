/-!
# Computations in sequence

A computation that goes on from the result of another one succeeds if both do.
-/

namespace GraphMachine

section Sequences

variable {ε α β : Type}
variable {r : Except ε α}
variable {b : β}

theorem bind_eq_ok_iff
    {f : α → Except ε β} :
    r.bind f = .ok b ↔ ∃ a, r = .ok a ∧ f a = .ok b := by
  cases r with
  | error err => simp [Except.bind]
  | ok a => simp [Except.bind]

theorem map_eq_ok_iff
    {f : α → β} :
    r.map f = .ok b ↔ ∃ a, r = .ok a ∧ f a = b := by
  cases r with
  | error err => simp [Except.map]
  | ok a => simp [Except.map]

end Sequences
end GraphMachine
