import GraphMachine.Proofs.Run.Diagnostics

/-!
# The nodes that a run executes

A visit is a node together with the machine that executes it.  A run goes from visit to visit until
it ends, so it has a list of visits, one for each node that it has executed.

What is to be said of all that a run has done is said of its visits and of the machine that it has
come to.  `Session.visits_induction` proves such a statement from what one visit does, and
`Session.Ends.visits_induction` does so for runs that are over.
-/

namespace GraphMachine
namespace Run

/-- A node that is executed, and the machine that does it. -/
structure Visit where
  machine : Machine
  node : Node

/-- What a visit leaves of a machine, apart from where the run goes on and from what is noted. -/
structure Visit.Leaves (o : Options) (v : Visit) (m : Machine) : Prop where
  memory_eq : m.memory = (attempt o v.node v.machine.memory).memory
  out_eq : m.out = (v.machine.out.write (v.machine.stepText o v.node)).2
  steps_eq : m.steps = v.machine.steps + 1

theorem Visit.leaves_step
    {g : Graph}
    {o : Options}
    {m : Machine}
    {n : Node}
    (hnext : m.upcoming g o = .ok n) :
    Leaves o ⟨m, n⟩ (m.step g o).machine := by
  obtain ⟨log, hvisit⟩ := m.visit_eq o n
  have hstep :
      m.step g o =
        (m.executed o n log).proceed n (attempt o n m.memory).answer
          (m.out.write (m.stepText o n)).1 := by
    rw [Machine.step_eq, hnext]
    exact hvisit
  rw [hstep]
  constructor
  case memory_eq =>
    rw [Machine.memory_machine_proceed]
    rfl
  case out_eq =>
    rw [Machine.out_machine_proceed]
    rfl
  case steps_eq =>
    rw [Machine.steps_machine_proceed]
    rfl

namespace Session

/-- The node that a run executes in the next step after so many, if it does execute one. -/
def visit? (s : Session) (i : Nat) : Option Visit :=
  match s.progress i with
  | .ended _ _ => none
  | .running m =>
      match m.upcoming s.graph s.options with
      | .error _ => none
      | .ok n => some ⟨m, n⟩

/-- The nodes that a run executes in its first steps, one after the other. -/
def visits (s : Session) (count : Nat) : List Visit :=
  (List.range count).filterMap s.visit?

section Visits

variable {s : Session}
variable {fuel : Nat}
variable {m : Machine}

theorem visits_succ
    (s : Session)
    (count : Nat) :
    s.visits (count + 1) = s.visits count ++ (s.visit? count).toList := by
  unfold visits
  rw [List.range_succ, List.filterMap_append]
  cases hvisit : s.visit? count with
  | none => simp [hvisit]
  | some v => simp [hvisit]

theorem visit?_of_upcoming
    {n : Node}
    (h : s.progress fuel = .running m)
    (hnext : m.upcoming s.graph s.options = .ok n) :
    s.visit? fuel = some ⟨m, n⟩ := by
  simp only [visit?, h, hnext]

/-- One more step is one more visit, or the run is over and has no more visits. -/
theorem visits_succ_cases
    (s : Session)
    (fuel : Nat) :
    (∃ m halt,
      (s.progress fuel = .running m ∨ s.progress fuel = .ended m halt) ∧
      s.progress (fuel + 1) = .ended m halt ∧
      s.visits (fuel + 1) = s.visits fuel) ∨
    ∃ m n,
      s.progress fuel = .running m ∧
      m.upcoming s.graph s.options = .ok n ∧
      s.progress (fuel + 1) = m.step s.graph s.options ∧
      s.visits (fuel + 1) = s.visits fuel ++ [⟨m, n⟩] := by
  cases hprogress : s.progress fuel with
  | ended m halt =>
      refine .inl ⟨m, halt, .inr rfl, Machine.advance_of_ended 1 hprogress, ?_⟩
      simp [visits_succ, visit?, hprogress]
  | running m =>
      have hstep := progress_succ_eq_step hprogress
      cases hnext : m.upcoming s.graph s.options with
      | error halt =>
          refine .inl ⟨m, halt, .inl rfl, ?_, ?_⟩
          · rw [hstep, Machine.step_eq, hnext]
          · simp [visits_succ, visit?, hprogress, hnext]
      | ok n =>
          refine .inr ⟨m, n, rfl, hnext, hstep, ?_⟩
          rw [visits_succ, visit?_of_upcoming hprogress hnext]
          rfl

theorem length_visits
    (s : Session)
    (fuel : Nat) :
    (s.visits fuel).length = (s.progress fuel).machine.steps := by
  induction fuel with
  | zero =>
      rfl
  | succ fuel ih =>
      rcases s.visits_succ_cases fuel with
        ⟨m, halt, hbefore, hended, hvisits⟩ | ⟨m, n, hrunning, hnext, hstep, hvisits⟩
      · rw [hvisits, hended, ih]
        rcases hbefore with hbefore | hbefore
        · rw [hbefore]
          rfl
        · rw [hbefore]
      · rw [hvisits, hstep, List.length_append, ih, hrunning,
          (Visit.leaves_step hnext).steps_eq]
        rfl

/-- What holds at the start and is kept by each visit holds of all visits and of what the run has
come to. -/
theorem visits_induction
    {P : List Visit → Progress → Prop}
    (hstart : P [] (.running (.initial s.out s.log)))
    (hhalt : ∀ vs m halt, P vs (.running m) → P vs (.ended m halt))
    (hvisit : ∀ vs m n,
      s.progress vs.length = .running m →
      m.upcoming s.graph s.options = .ok n →
      P vs (.running m) →
      P (vs ++ [⟨m, n⟩]) (m.step s.graph s.options))
    (fuel : Nat) :
    P (s.visits fuel) (s.progress fuel) := by
  induction fuel with
  | zero =>
      exact hstart
  | succ fuel ih =>
      rcases s.visits_succ_cases fuel with
        ⟨m, halt, hbefore, hended, hvisits⟩ | ⟨m, n, hrunning, hnext, hstep, hvisits⟩
      · rw [hvisits, hended]
        rcases hbefore with hbefore | hbefore
        · rw [hbefore] at ih
          exact hhalt _ m halt ih
        · rw [hbefore] at ih
          exact ih
      · have hcount : (s.visits fuel).length = fuel := by
          rw [length_visits, hrunning]
          exact steps_of_progress_running hrunning
        rw [hrunning] at ih
        rw [hvisits, hstep]
        exact hvisit _ m n (by rw [hcount, hrunning]) hnext ih

/-- No node is executed after a run is over. -/
theorem visits_steps
    (s : Session)
    (fuel : Nat) :
    s.visits (s.progress fuel).machine.steps = s.visits fuel := by
  induction fuel with
  | zero =>
      rfl
  | succ fuel ih =>
      rcases s.visits_succ_cases fuel with
        ⟨m, halt, hbefore, hended, hvisits⟩ | ⟨m, n, hrunning, hnext, hstep, hvisits⟩
      · rw [hvisits, hended, ← ih]
        rcases hbefore with hbefore | hbefore
        · rw [hbefore]
          rfl
        · rw [hbefore]
      · rw [hstep, (Visit.leaves_step hnext).steps_eq, steps_of_progress_running hrunning]

/-- The visits are the nodes that are executed, each from the machine before its step. -/
theorem visit?_eq_some_iff
    {i : Nat}
    {v : Visit} :
    s.visit? i = some v ↔ s.Executes i v.machine v.node := by
  constructor
  · intro h
    cases hprogress : s.progress i with
    | ended final halt =>
        simp [visit?, hprogress] at h
    | running m =>
        cases hnext : m.upcoming s.graph s.options with
        | error halt =>
            simp [visit?, hprogress, hnext] at h
        | ok n =>
            rw [visit?_of_upcoming hprogress hnext] at h
            cases h
            refine ⟨hprogress, Machine.get?_of_upcoming hnext, ?_⟩
            rw [progress_succ_eq_step hprogress, (Visit.leaves_step hnext).steps_eq,
              steps_of_progress_running hprogress]
  · rintro ⟨hrunning, hdeclared, hcounted⟩
    rw [progress_succ_eq_step hrunning] at hcounted
    cases hnext : v.machine.upcoming s.graph s.options with
    | error halt =>
        -- The run would be over before the node, and the step would not be counted.
        rw [Machine.step_eq, hnext] at hcounted
        have hsteps := steps_of_progress_running hrunning
        simp only [Progress.machine] at hcounted
        omega
    | ok n =>
        have hget := Machine.get?_of_upcoming hnext
        rw [hdeclared] at hget
        cases hget
        exact visit?_of_upcoming hrunning hnext

/-- The visits stand in the list in the order in which the nodes are executed. -/
theorem getElem?_visits
    {i : Nat}
    (hi : i < (s.visits fuel).length) :
    (s.visits fuel)[i]? = s.visit? i := by
  have hall := s.visits_induction (P := fun vs _ => ∀ i < vs.length, vs[i]? = s.visit? i)
    (by simp) (fun _ _ _ h => h)
    (fun vs m n hprogress hnext hvs => by
      intro i hi
      rcases Nat.lt_or_ge i vs.length with hlt | hge
      · rw [List.getElem?_append_left hlt, hvs i hlt]
      · have hlast : i = vs.length := by
          rw [List.length_append, List.length_singleton] at hi
          omega
        rw [hlast, List.getElem?_concat_length, visit?_of_upcoming hprogress hnext])
    fuel
  exact hall i hi

theorem executes_of_getElem?_visits
    {i : Nat}
    {v : Visit}
    (hv : (s.visits fuel)[i]? = some v) :
    s.Executes i v.machine v.node := by
  obtain ⟨hi, -⟩ := List.getElem?_eq_some_iff.mp hv
  rw [getElem?_visits hi] at hv
  exact visit?_eq_some_iff.mp hv

end Visits

section Accounts

variable {s after : Session}
variable {executed : Nat}
variable {result : Except RunError Report}

theorem visits_of_ended
    {fuel : Nat}
    {final : Machine}
    {halt : Except RunError String}
    (h : s.progress fuel = .ended final halt) :
    s.visits final.steps = s.visits fuel := by
  have hsteps := s.visits_steps fuel
  rw [h] at hsteps
  exact hsteps

theorem Ends.length_visits
    (h : s.Ends executed result after) :
    (s.visits executed).length = executed := by
  obtain ⟨fuel, final, halt, hended, rfl, -⟩ := h
  have hlength := s.length_visits fuel
  rw [hended] at hlength
  rw [visits_of_ended hended]
  exact hlength

/-- What each visit keeps is true of all visits of a run that is over, and of the memory and the
output that it leaves. -/
theorem Ends.visits_induction
    (h : s.Ends executed result after)
    {P : List Visit → Memory → Sink → Prop}
    (hstart : P [] .empty s.out)
    (hvisit : ∀ vs v m,
      s.graph.get? v.machine.current = some v.node →
      v.Leaves s.options m →
      P vs v.machine.memory v.machine.out →
      P (vs ++ [v]) m.memory m.out) :
    P (s.visits executed) after.memory after.out := by
  obtain ⟨fuel, final, halt, hended, rfl, hconclude⟩ := h
  obtain ⟨rfl, rfl⟩ := Prod.ext_iff.mp hconclude
  have hall := s.visits_induction (P := fun vs p => P vs p.machine.memory p.machine.out)
    hstart (fun _ _ _ h => h)
    (fun vs m n _ hnext hvs =>
      hvisit vs ⟨m, n⟩ _ (Machine.get?_of_upcoming hnext) (Visit.leaves_step hnext) hvs)
    fuel
  rw [hended] at hall
  rw [memory_conclude, out_conclude, visits_of_ended hended]
  exact hall

end Accounts

end Session
end Run
end GraphMachine
