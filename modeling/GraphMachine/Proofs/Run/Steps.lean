import GraphMachine.Proofs.Graph.Insertion
import GraphMachine.Proofs.Operation.Effect
import GraphMachine.Run.Session

/-!
# Steps and runs

What one step of a machine can do is said once, by `Machine.Transition`: the run stops at its
limit, it ends between two nodes, or it executes one node and leaves it.  What whole runs do
follows by induction on their length.
-/

namespace GraphMachine

namespace Run

/-- The answer by which the successor is chosen. -/
def Outcome.answer : Outcome → Option Bool
  | answered result => result
  | skipped _ => none
  | refused => none

theorem grows_perform
    (o : Options)
    (n : Node)
    (memory : Memory)
    (out : Sink) :
    out.Grows (perform o n memory out).out := by
  rw [perform_eq_effect]
  split
  · exact .refl out
  · split
    · exact .refl out
    · split
      · exact .refl out
      · next eff _ =>
          have hgrows := out.grows_write eff.output
          split
          · next hwrite =>
              rw [hwrite] at hgrows
              exact hgrows
          · next hwrite =>
              rw [hwrite] at hgrows
              exact hgrows

/-- The run ended between two nodes: the next one is not declared or has too many edges. -/
def EndsBetween (g : Graph) : Except RunError String → Prop
  | .ok name => g.get? name = none
  | .error (.nodeNotFound _ _) => True
  | .error (.tooManyEdges _ _) => True
  | .error (.stepLimit _ _) => False
  | .error .output => False

namespace Machine

def answer (o : Options) (n : Node) (m : Machine) : Option Bool :=
  (perform o n m.memory m.out).outcome.answer

/-- The second machine has executed so many nodes more, and has kept output and diagnostics. -/
structure Extends (count : Nat) (m m' : Machine) : Prop where
  steps_eq : m'.steps = m.steps + count
  out_grows : m.out.Grows m'.out
  diagnostics_grow : ∃ ds, m'.diagnostics = m.diagnostics ++ ds

theorem Extends.refl
    (m : Machine) :
    Extends 0 m m where
  steps_eq := rfl
  out_grows := .refl m.out
  diagnostics_grow := ⟨#[], Array.append_empty.symm⟩

theorem Extends.trans
    {i j : Nat}
    {m m' m'' : Machine}
    (h : Extends i m m')
    (h' : Extends j m' m'') :
    Extends (i + j) m m'' where
  steps_eq := by
    rw [h'.steps_eq, h.steps_eq, Nat.add_assoc]
  out_grows := h.out_grows.trans h'.out_grows
  diagnostics_grow := by
    obtain ⟨ds, hds⟩ := h.diagnostics_grow
    obtain ⟨es, hes⟩ := h'.diagnostics_grow
    exact ⟨ds ++ es, by rw [hes, hds, Array.append_assoc]⟩

/-- How a run goes on from a node after an answer. -/
inductive Leaves (n : Node) (answer : Option Bool) (m : Machine) : Progress → Prop
  | next (h : n.next answer = some m.current) : Leaves n answer m (.running m)
  | halt (h : n.next answer = none) : Leaves n answer m (.ended m (.ok n.name))
  | refused : Leaves n answer m (.ended m (.error .output))

theorem exists_leaves_leave
    (o : Options)
    (n : Node)
    (answer : Option Bool)
    (m : Machine) :
    ∃ m', Extends 0 m m' ∧ Leaves n answer m' (m.leave o n answer) := by
  obtain ⟨memory, out, steps, diagnostics, log, current, origin⟩ := m
  have hgrows :
      out.Grows
        (if o.debug then out.write (traceLine steps n answer memory) else (true, out)).2 := by
    split
    · exact out.grows_write _
    · exact .refl out
  unfold leave
  simp only
  generalize (if o.debug then out.write (traceLine steps n answer memory) else (true, out)) = w
    at hgrows ⊢
  obtain ⟨taken, written⟩ := w
  have hextends (log' : Log) (current' : String) (origin' : Option String) :
      Extends 0 ⟨memory, out, steps, diagnostics, log, current, origin⟩
        ⟨memory, written, steps, diagnostics, log', current', origin'⟩ :=
    ⟨rfl, hgrows, #[], Array.append_empty.symm⟩
  cases taken with
  | false =>
      exact ⟨_, hextends _ _ _, .refused⟩
  | true =>
      cases hnext : n.next answer with
      | none =>
          exact ⟨_, hextends _ _ _, .halt hnext⟩
      | some name =>
          exact ⟨_, hextends _ _ _, .next hnext⟩

theorem exists_leaves_visit
    (o : Options)
    (n : Node)
    (m : Machine) :
    ∃ m', Extends 1 m m' ∧ Leaves n (m.answer o n) m' (m.visit o n) := by
  obtain ⟨memory, out, steps, diagnostics, log, current, origin⟩ := m
  have hgrows := grows_perform o n memory out
  unfold visit answer
  simp only
  generalize perform o n memory out = done at hgrows ⊢
  obtain ⟨outcome, after, written, events⟩ := done
  have hextends (ds : Array Diagnostic) :
      Extends 1 ⟨memory, out, steps, diagnostics, log, current, origin⟩
        ⟨after, written, steps + 1, diagnostics ++ ds, log.addAll events, current, origin⟩ :=
    ⟨rfl, hgrows, ds, rfl⟩
  cases outcome with
  | answered result =>
      obtain ⟨m', hm', hleaves⟩ := exists_leaves_leave o n result
        ⟨after, written, steps + 1, diagnostics ++ #[], log.addAll events, current, origin⟩
      rw [Array.append_empty] at hleaves
      exact ⟨m', (hextends #[]).trans hm', hleaves⟩
  | skipped err =>
      obtain ⟨m', hm', hleaves⟩ := exists_leaves_leave o n none
        ⟨after, written, steps + 1, diagnostics ++ #[⟨steps + 1, n.name, n.operationSpan, err⟩],
          log.addAll events, current, origin⟩
      rw [← Array.push_eq_append] at hleaves
      exact ⟨m', (hextends _).trans hm', hleaves⟩
  | refused =>
      have hextends' := hextends #[]
      rw [Array.append_empty] at hextends'
      exact ⟨_, hextends', .refused⟩

/-- What one step can do. -/
inductive Transition (g : Graph) (o : Options) (m : Machine) : Progress → Prop
  | limit
      {limit : Nat}
      (hlimit : exhausted? o m.steps = some limit) :
      Transition g o m (.ended m (.error (.stepLimit limit m.current)))
  | between
      {halt : Except RunError String}
      (hlimit : exhausted? o m.steps = none)
      (hbetween : EndsBetween g halt) :
      Transition g o m (.ended m halt)
  | visit
      {n : Node}
      {m' : Machine}
      {p : Progress}
      (hlimit : exhausted? o m.steps = none)
      (hget : g.get? m.current = some n)
      (hextends : Extends 1 m m')
      (hleaves : Leaves n (m.answer o n) m' p) :
      Transition g o m p

theorem transition_step
    (g : Graph)
    (o : Options)
    (m : Machine) :
    Transition g o m (m.step g o) := by
  unfold step
  cases hlimit : exhausted? o m.steps with
  | some limit =>
      exact .limit hlimit
  | none =>
      cases hget : g.get? m.current with
      | none =>
          by_cases hend : m.current = Node.endName
          · rw [hend] at hget
            simp only [if_pos hend]
            exact .between hlimit hget
          · simp only [if_neg hend]
            exact .between hlimit trivial
      | some n =>
          by_cases hcrowded : n.isCrowded
          · simp only [if_pos hcrowded]
            exact .between hlimit trivial
          · simp only [if_neg hcrowded]
            obtain ⟨m', hextends, hleaves⟩ := exists_leaves_visit o n m
            exact .visit hlimit hget hextends hleaves

section Runs

variable {g : Graph}
variable {o : Options}

/-- A step after which the run goes on executes a node, and the answer chooses the next one. -/
theorem exists_node_of_step_running
    {m m' : Machine}
    (h : m.step g o = .running m') :
    ∃ n,
      g.get? m.current = some n ∧
      n.next (m.answer o n) = some m'.current ∧
      Extends 1 m m' := by
  have hstep := transition_step g o m
  rw [h] at hstep
  cases hstep with
  | @visit n _ _ _ hget hextends hleaves =>
      cases hleaves with
      | next hnext =>
          exact ⟨n, hget, hnext, hextends⟩

theorem advance_succ
    (fuel : Nat)
    (m : Machine) :
    m.advance g o (fuel + 1) =
      match m.step g o with
      | .running next => next.advance g o fuel
      | .ended final result => .ended final result := by
  rfl

theorem advance_one
    (m : Machine) :
    m.advance g o 1 = m.step g o := by
  rw [advance_succ]
  cases m.step g o <;> rfl

/-- What every step preserves holds of every machine that a run comes to. -/
theorem invariant_of_advance_running
    {P : Machine → Prop}
    (hstep : ∀ m m', P m → m.step g o = .running m' → P m')
    {fuel : Nat}
    {m m' : Machine}
    (hm : P m)
    (h : m.advance g o fuel = .running m') :
    P m' := by
  induction fuel generalizing m with
  | zero =>
      cases h
      exact hm
  | succ fuel ih =>
      rw [advance_succ] at h
      cases hnext : m.step g o with
      | ended final result =>
          rw [hnext] at h
          cases h
      | running next =>
          rw [hnext] at h
          exact ih (hstep m next hm hnext) h

theorem advance_of_running
    {fuel : Nat}
    {m m' : Machine}
    (more : Nat)
    (h : m.advance g o fuel = .running m') :
    m.advance g o (fuel + more) = m'.advance g o more := by
  induction fuel generalizing m with
  | zero =>
      cases h
      rw [Nat.zero_add]
  | succ fuel ih =>
      rw [Nat.succ_add]
      rw [advance_succ] at h ⊢
      cases hstep : m.step g o with
      | running next =>
          rw [hstep] at h
          exact ih h
      | ended final result =>
          rw [hstep] at h
          cases h

/-- A run that is over stays as it is. -/
theorem advance_of_ended
    {fuel : Nat}
    {m final : Machine}
    {result : Except RunError String}
    (more : Nat)
    (h : m.advance g o fuel = .ended final result) :
    m.advance g o (fuel + more) = .ended final result := by
  induction fuel generalizing m with
  | zero =>
      cases h
  | succ fuel ih =>
      rw [Nat.succ_add]
      rw [advance_succ] at h ⊢
      cases hstep : m.step g o with
      | running next =>
          rw [hstep] at h
          exact ih h
      | ended final' result' =>
          rw [hstep] at h
          exact h

/-- A run has at most one end. -/
theorem ended_unique
    {fuel fuel' : Nat}
    {m final final' : Machine}
    {result result' : Except RunError String}
    (h : m.advance g o fuel = .ended final result)
    (h' : m.advance g o fuel' = .ended final' result') :
    final = final' ∧ result = result' := by
  have hmore := advance_of_ended fuel' h
  have hmore' := advance_of_ended fuel h'
  rw [Nat.add_comm, hmore] at hmore'
  exact Progress.ended.inj hmore'

/-- A run that will be over is over the same way from each of its machines on. -/
theorem ended_of_running
    {fuel fuel' : Nat}
    {m m' final : Machine}
    {result : Except RunError String}
    (h : m.advance g o fuel = .running m')
    (h' : m.advance g o fuel' = .ended final result) :
    m'.advance g o fuel' = .ended final result := by
  rw [← advance_of_running fuel' h, Nat.add_comm]
  exact advance_of_ended fuel h'

/-- A run that goes on has executed one node in each step. -/
theorem extends_of_advance_running
    {fuel : Nat}
    {m m' : Machine}
    (h : m.advance g o fuel = .running m') :
    Extends fuel m m' := by
  induction fuel generalizing m with
  | zero =>
      cases h
      exact .refl _
  | succ fuel ih =>
      rw [advance_succ] at h
      cases hstep : m.step g o with
      | ended final result =>
          rw [hstep] at h
          cases h
      | running next =>
          rw [hstep] at h
          obtain ⟨-, -, -, hextends⟩ := exists_node_of_step_running hstep
          rw [Nat.add_comm]
          exact hextends.trans (ih h)

/-- The last step of a run that is over, and the run before it. -/
theorem exists_last_step
    {fuel : Nat}
    {m final : Machine}
    {result : Except RunError String}
    (h : m.advance g o fuel = .ended final result) :
    ∃ before p,
      before < fuel ∧
      m.advance g o before = .running p ∧
      p.step g o = .ended final result := by
  induction fuel generalizing m with
  | zero =>
      cases h
  | succ fuel ih =>
      rw [advance_succ] at h
      cases hstep : m.step g o with
      | running next =>
          rw [hstep] at h
          obtain ⟨before, p, hlt, hbefore, hlast⟩ := ih h
          refine ⟨before + 1, p, Nat.succ_lt_succ hlt, ?_, hlast⟩
          rw [advance_succ, hstep]
          exact hbefore
      | ended final' result' =>
          rw [hstep] at h
          exact ⟨0, m, Nat.succ_pos fuel, rfl, hstep.trans h⟩

/-- Where the last of several steps came from. -/
theorem exists_predecessor
    {fuel : Nat}
    {m m' : Machine}
    (h : m.advance g o (fuel + 1) = .running m') :
    ∃ p n,
      m.advance g o fuel = .running p ∧
      g.get? p.current = some n ∧
      n.next (p.answer o n) = some m'.current := by
  cases hbefore : m.advance g o fuel with
  | ended final result =>
      rw [advance_of_ended 1 hbefore] at h
      cases h
  | running p =>
      rw [advance_of_running 1 hbefore, advance_succ] at h
      cases hstep : p.step g o with
      | ended final result =>
          rw [hstep] at h
          cases h
      | running next =>
          rw [hstep] at h
          cases h
          obtain ⟨n, hget, hnext, -⟩ := exists_node_of_step_running hstep
          exact ⟨p, n, rfl, hget, hnext⟩

/-- A run that is over has kept the output and the diagnostics of each of its machines. -/
theorem exists_extends_of_advance_ended
    {fuel : Nat}
    {m final : Machine}
    {result : Except RunError String}
    (h : m.advance g o fuel = .ended final result) :
    ∃ count, Extends count m final := by
  obtain ⟨before, p, -, hbefore, hlast⟩ := exists_last_step h
  have hextends := extends_of_advance_running hbefore
  have hstep := transition_step g o p
  rw [hlast] at hstep
  cases hstep with
  | limit _ =>
      exact ⟨before, hextends⟩
  | between _ _ =>
      exact ⟨before, hextends⟩
  | visit _ _ hvisit hleaves =>
      cases hleaves with
      | halt _ =>
          exact ⟨before + 1, hextends.trans hvisit⟩
      | refused =>
          exact ⟨before + 1, hextends.trans hvisit⟩

end Runs

end Machine

namespace Session

def progress (s : Session) (fuel : Nat) : Progress :=
  (Machine.initial s.out s.log).advance s.graph s.options fuel

/-- The run of a session comes to an end, after executing so many nodes. -/
def Ends (s : Session) (executed : Nat) (result : Except RunError Report) (after : Session) :
    Prop :=
  ∃ fuel final halt,
    s.progress fuel = .ended final halt ∧
    final.steps = executed ∧
    conclude s.graph s.options halt final = (result, after)

/-- The operations that a run skipped.  After an error the session has them. -/
def skipped (after : Session) : Except RunError Report → Array Diagnostic
  | .ok report => report.diagnostics
  | .error _ => after.recovered

theorem runWithin_eq
    (s : Session)
    (fuel : Nat) :
    s.runWithin fuel =
      match s.progress fuel with
      | .running _ => none
      | .ended m halt => some (conclude s.graph s.options halt m) := by
  rfl

theorem steps_of_progress_running
    {s : Session}
    {fuel : Nat}
    {m : Machine}
    (h : s.progress fuel = .running m) :
    m.steps = fuel := by
  have hsteps := (Machine.extends_of_advance_running h).steps_eq
  simpa [Machine.initial] using hsteps

/-- A run goes on by the step of the machine that it has come to. -/
theorem progress_succ_eq_step
    {s : Session}
    {fuel : Nat}
    {m : Machine}
    (h : s.progress fuel = .running m) :
    s.progress (fuel + 1) = m.step s.graph s.options := by
  exact (Machine.advance_of_running 1 h).trans (Machine.advance_one m)

theorem ends_of_progress
    {s : Session}
    {fuel : Nat}
    {final : Machine}
    {halt : Except RunError String}
    (h : s.progress fuel = .ended final halt) :
    s.Ends final.steps (conclude s.graph s.options halt final).1
      (conclude s.graph s.options halt final).2 := by
  exact ⟨fuel, final, halt, h, rfl, rfl⟩

theorem exists_ends_of_runWithin
    {s after : Session}
    {fuel : Nat}
    {result : Except RunError Report}
    (h : s.runWithin fuel = some (result, after)) :
    ∃ executed, s.Ends executed result after := by
  rw [runWithin_eq] at h
  cases hprogress : s.progress fuel with
  | running m =>
      rw [hprogress] at h
      cases h
  | ended final halt =>
      rw [hprogress] at h
      exact ⟨final.steps, fuel, final, halt, hprogress, rfl, Option.some.inj h⟩

/-- A report counts the nodes that its run has executed. -/
theorem ends_of_runWithin_ok
    {s after : Session}
    {fuel : Nat}
    {report : Report}
    (h : s.runWithin fuel = some (.ok report, after)) :
    s.Ends report.steps (.ok report) after := by
  cases hprogress : s.progress fuel with
  | running m =>
      rw [runWithin_eq, hprogress] at h
      cases h
  | ended final halt =>
      rw [runWithin_eq, hprogress] at h
      have hconclude := Option.some.inj h
      refine ⟨fuel, final, halt, hprogress, ?_, hconclude⟩
      cases halt with
      | error err =>
          cases hconclude
      | ok name =>
          cases hconclude
          rfl

section Conclusions

variable (g : Graph)
variable (o : Options)
variable (halt : Except RunError String)
variable (m : Machine)

theorem map_haltedAt_conclude :
    (conclude g o halt m).1.map Report.haltedAt = halt := by
  cases halt <;> rfl

theorem conclude_fst_eq_error_iff
    (err : RunError) :
    (conclude g o halt m).1 = .error err ↔ halt = .error err := by
  cases halt <;> simp [conclude]

theorem conclude_fst_eq
    (o' : Options) :
    (conclude g o halt m).1 = (conclude g o' halt m).1 := by
  cases halt <;> rfl

theorem graph_conclude :
    (conclude g o halt m).2.graph = g := by
  cases halt <;> rfl

theorem options_conclude :
    (conclude g o halt m).2.options = o := by
  cases halt <;> rfl

theorem memory_conclude :
    (conclude g o halt m).2.memory = m.memory := by
  cases halt <;> rfl

theorem out_conclude :
    (conclude g o halt m).2.out = m.out := by
  cases halt <;> rfl

theorem recovered_conclude_eq
    (o' : Options) :
    (conclude g o halt m).2.recovered = (conclude g o' halt m).2.recovered := by
  cases halt <;> rfl

theorem skipped_conclude :
    (conclude g o halt m).2.skipped (conclude g o halt m).1 = m.diagnostics := by
  cases halt <;> rfl

end Conclusions

end Session
end Run
end GraphMachine
