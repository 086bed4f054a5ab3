import GraphMachine.Proofs.Run.Steps

/-!
# Executing a node

What the operation of a node comes to depends on memory alone.  The output only decides whether
what is written is taken.  So a step is described by three things:

* `Machine.upcoming`, the node that is executed next, or the end of the run between two nodes;
* `attempt`, the answer, the memory and the text that the operation of the node comes to;
* one write of `Machine.stepText`, the text of the operation and the line for debugging together.

The log is left open: a step is described up to the log of the machine that it leads to.
-/

namespace GraphMachine
namespace Run

/-- What the operation of a node comes to if the output takes what it writes. -/
structure Attempt where
  result : Except OperationError (Option Bool)
  memory : Memory
  text : String

namespace Attempt

/-- The answer by which the successor is chosen. -/
def answer (a : Attempt) : Option Bool :=
  match a.result with
  | .ok answer => answer
  | .error _ => none

def diagnostics (a : Attempt) (step : Nat) (n : Node) : Array Diagnostic :=
  match a.result with
  | .ok _ => #[]
  | .error err => #[⟨step, n.name, n.operationSpan, err⟩]

/-- The outcome if the output takes what is written. -/
def outcome (a : Attempt) : Outcome :=
  match a.result with
  | .ok answer => .answered answer
  | .error err => .skipped err

end Attempt

/-- What the operation of a node comes to with a memory. -/
def attempt (o : Options) (n : Node) (memory : Memory) : Attempt :=
  match n.operation with
  | none => ⟨.ok none, memory, ""⟩
  | some text =>
      match Operation.parse text with
      | .error err => ⟨.error err, memory, ""⟩
      | .ok op =>
          match op.effect ⟨memory, o.mode⟩ o.maxDepth with
          | .error err => ⟨.error (.eval err), memory, ""⟩
          | .ok eff => ⟨.ok eff.result, eff.applyTo memory, eff.output⟩

/-- An operation that writes has no other effect. -/
theorem attempt_of_text_ne
    {o : Options}
    {n : Node}
    {memory : Memory}
    (h : (attempt o n memory).text ≠ "") :
    (attempt o n memory).result = .ok none ∧ (attempt o n memory).memory = memory := by
  unfold attempt at h ⊢
  split at h
  · exact absurd rfl h
  · split at h
    · exact absurd rfl h
    · split at h
      · exact absurd rfl h
      · next eff heff =>
          cases eff with
          | print line => exact ⟨rfl, rfl⟩
          | store target value => exact absurd rfl h
          | answer result => exact absurd rfl h
          | move delta => exact absurd rfl h

/-- Only an operation that writes is refused, and it would have had no other effect. -/
theorem attempt_of_refused
    {o : Options}
    {n : Node}
    {memory : Memory}
    {out : Sink}
    (h : (out.write (attempt o n memory).text).1 = false) :
    (attempt o n memory).result = .ok none ∧ (attempt o n memory).memory = memory := by
  apply attempt_of_text_ne
  intro hempty
  rw [hempty, Sink.write_empty] at h
  cases h

/-- An operation is done or skipped as attempted if its text is taken, and has no effect
otherwise. -/
theorem perform_eq
    (o : Options)
    (n : Node)
    (memory : Memory)
    (out : Sink) :
    ∃ events,
      perform o n memory out =
        if (out.write (attempt o n memory).text).1 then
          ⟨(attempt o n memory).outcome, (attempt o n memory).memory,
            (out.write (attempt o n memory).text).2, events⟩
        else
          ⟨.refused, memory, (out.write (attempt o n memory).text).2, events⟩ := by
  cases hoperation : n.operation with
  | none =>
      simp only [perform_eq_effect, attempt, hoperation, Sink.write_empty, if_true]
      exact ⟨_, rfl⟩
  | some text =>
      cases hparse : Operation.parse text with
      | error err =>
          simp only [perform_eq_effect, attempt, hoperation, hparse, Sink.write_empty, if_true]
          exact ⟨_, rfl⟩
      | ok op =>
          cases heffect : op.effect ⟨memory, o.mode⟩ o.maxDepth with
          | error err =>
              simp only [perform_eq_effect, attempt, hoperation, hparse, heffect,
                Sink.write_empty, if_true]
              exact ⟨_, rfl⟩
          | ok eff =>
              simp only [perform_eq_effect, attempt, hoperation, hparse, heffect]
              rcases out.write eff.output with ⟨fits, written⟩
              cases fits with
              | true => exact ⟨_, rfl⟩
              | false => exact ⟨_, rfl⟩

def Progress.machine : Progress → Machine
  | running m => m
  | ended m _ => m

namespace Machine

/-- The node that is executed next, or how the run ends before it. -/
def upcoming (g : Graph) (o : Options) (m : Machine) : Except (Except RunError String) Node :=
  match exhausted? o m.steps with
  | some limit => .error (.error (.stepLimit limit m.current))
  | none =>
      match g.get? m.current with
      | none =>
          if m.current = Node.endName then
            .error (.ok Node.endName)
          else
            .error (.error (.nodeNotFound m.current m.origin))
      | some n =>
          if n.isCrowded then
            .error (.error (.tooManyEdges n.name n.edges.length))
          else
            .ok n

theorem step_eq
    (g : Graph)
    (o : Options)
    (m : Machine) :
    m.step g o =
      match m.upcoming g o with
      | .error halt => .ended m halt
      | .ok n => m.visit o n := by
  unfold step upcoming
  cases exhausted? o m.steps with
  | some limit => rfl
  | none =>
      cases g.get? m.current with
      | none =>
          by_cases hend : m.current = Node.endName
          · simp only [if_pos hend]
          · simp only [if_neg hend]
      | some n =>
          by_cases hcrowded : n.isCrowded
          · simp only [if_pos hcrowded]
          · simp only [if_neg hcrowded]

theorem get?_of_upcoming
    {g : Graph}
    {o : Options}
    {m : Machine}
    {n : Node}
    (h : m.upcoming g o = .ok n) :
    g.get? m.current = some n := by
  unfold upcoming at h
  split at h
  · cases h
  · split at h
    · split at h <;> cases h
    · next hget =>
        split at h
        · cases h
        · cases h
          exact hget

section Visits

variable (o : Options)
variable (n : Node)
variable (m : Machine)

/-- The line for debugging that belongs to the next step, if it executes the node. -/
def traceText : String :=
  traceLine (m.steps + 1) n (attempt o n m.memory).answer (attempt o n m.memory).memory

/-- All that the next step writes, if it executes the node. -/
def stepText : String :=
  (attempt o n m.memory).text ++ if o.debug then m.traceText o n else ""

/-- The machine after the node was executed, and before the run goes on. -/
def executed (log : Log) : Machine where
  memory := (attempt o n m.memory).memory
  out := (m.out.write (m.stepText o n)).2
  steps := m.steps + 1
  diagnostics := m.diagnostics ++ (attempt o n m.memory).diagnostics (m.steps + 1) n
  log := log
  current := m.current
  origin := m.origin

/-- Goes on to the successor of a node that was executed, if all of its text was taken. -/
def proceed (answer : Option Bool) (taken : Bool) : Progress :=
  if taken then
    match n.next answer with
    | some name => .running { m with current := name, origin := some n.name }
    | none => .ended m (.ok n.name)
  else
    .ended m (.error .output)

/-- Going on changes nothing but where the run stands. -/
theorem exists_machine_proceed
    (answer : Option Bool)
    (taken : Bool) :
    ∃ current origin,
      (m.proceed n answer taken).machine = { m with current := current, origin := origin } := by
  unfold proceed
  cases taken with
  | false =>
      exact ⟨m.current, m.origin, rfl⟩
  | true =>
      cases n.next answer with
      | some name => exact ⟨name, some n.name, rfl⟩
      | none => exact ⟨m.current, m.origin, rfl⟩

@[simp] theorem memory_machine_proceed
    (answer : Option Bool)
    (taken : Bool) :
    (m.proceed n answer taken).machine.memory = m.memory := by
  obtain ⟨_, _, h⟩ := exists_machine_proceed n m answer taken
  rw [h]

@[simp] theorem out_machine_proceed
    (answer : Option Bool)
    (taken : Bool) :
    (m.proceed n answer taken).machine.out = m.out := by
  obtain ⟨_, _, h⟩ := exists_machine_proceed n m answer taken
  rw [h]

@[simp] theorem steps_machine_proceed
    (answer : Option Bool)
    (taken : Bool) :
    (m.proceed n answer taken).machine.steps = m.steps := by
  obtain ⟨_, _, h⟩ := exists_machine_proceed n m answer taken
  rw [h]

@[simp] theorem diagnostics_machine_proceed
    (answer : Option Bool)
    (taken : Bool) :
    (m.proceed n answer taken).machine.diagnostics = m.diagnostics := by
  obtain ⟨_, _, h⟩ := exists_machine_proceed n m answer taken
  rw [h]

theorem leave_eq
    (answer : Option Bool) :
    ∃ log,
      m.leave o n answer =
        let text := if o.debug then traceLine m.steps n answer m.memory else ""
        { m with out := (m.out.write text).2, log := log }.proceed n answer
          (m.out.write text).1 := by
  obtain ⟨memory, out, steps, diagnostics, log, current, origin⟩ := m
  refine ⟨log.add (.stepped steps n.name answer (n.next answer)), ?_⟩
  have hwrite :
      (if o.debug then out.write (traceLine steps n answer memory) else (true, out)) =
        out.write (if o.debug then traceLine steps n answer memory else "") := by
    cases o.debug with
    | true => rfl
    | false => exact (Sink.write_empty out).symm
  unfold leave proceed
  cases n.next answer with
  | some name => simp only [hwrite]
  | none => simp only [hwrite]

/-- Executing a node writes all its text at once, and goes on if it is taken. -/
theorem visit_eq :
    ∃ log,
      m.visit o n =
        (m.executed o n log).proceed n (attempt o n m.memory).answer
          (m.out.write (m.stepText o n)).1 := by
  obtain ⟨memory, out, steps, diagnostics, log, current, origin⟩ := m
  obtain ⟨events, hperform⟩ := perform_eq o n memory out
  have happend := Sink.write_append out (attempt o n memory).text
    (if o.debug then
      traceLine (steps + 1) n (attempt o n memory).answer (attempt o n memory).memory
    else "")
  unfold visit executed stepText traceText
  simp only [hperform, happend]
  cases hfits : (out.write (attempt o n memory).text).1 with
  | true =>
      simp only [if_true]
      cases hresult : (attempt o n memory).result with
      | ok answer =>
          obtain ⟨log', hleave⟩ := leave_eq o n
            ⟨(attempt o n memory).memory, (out.write (attempt o n memory).text).2, steps + 1,
              diagnostics, log.addAll events, current, origin⟩ answer
          refine ⟨log', ?_⟩
          simpa [Attempt.outcome, Attempt.answer, Attempt.diagnostics, hresult] using hleave
      | error err =>
          obtain ⟨log', hleave⟩ := leave_eq o n
            ⟨(attempt o n memory).memory, (out.write (attempt o n memory).text).2, steps + 1,
              diagnostics.push ⟨steps + 1, n.name, n.operationSpan, err⟩, log.addAll events,
              current, origin⟩ none
          refine ⟨log', ?_⟩
          simpa [Attempt.outcome, Attempt.answer, Attempt.diagnostics, hresult] using hleave
  | false =>
      obtain ⟨hresult, hmemory⟩ := attempt_of_refused hfits
      refine ⟨log.addAll events, ?_⟩
      simp [Attempt.diagnostics, proceed, hresult, hmemory]

theorem answer_eq :
    m.answer o n = (attempt o n m.memory).answer := by
  obtain ⟨events, hperform⟩ := perform_eq o n m.memory m.out
  unfold answer
  rw [hperform]
  cases hfits : (m.out.write (attempt o n m.memory).text).1 with
  | true =>
      cases hresult : (attempt o n m.memory).result with
      | ok answer => simp [Outcome.answer, Attempt.outcome, Attempt.answer, hresult]
      | error err => simp [Outcome.answer, Attempt.outcome, Attempt.answer, hresult]
  | false =>
      obtain ⟨hresult, -⟩ := attempt_of_refused hfits
      simp [Outcome.answer, Attempt.answer, hresult]

end Visits

/-- A step ends the run before the next node, or executes the node. -/
theorem step_cases
    (g : Graph)
    (o : Options)
    (m : Machine) :
    (∃ halt, m.upcoming g o = .error halt ∧ m.step g o = .ended m halt) ∨
      ∃ n log,
        m.upcoming g o = .ok n ∧
        m.step g o =
          (m.executed o n log).proceed n (attempt o n m.memory).answer
            (m.out.write (m.stepText o n)).1 := by
  cases hupcoming : m.upcoming g o with
  | error halt =>
      exact .inl ⟨halt, rfl, by rw [step_eq, hupcoming]⟩
  | ok n =>
      obtain ⟨log, hvisit⟩ := m.visit_eq o n
      exact .inr ⟨n, log, rfl, by rw [step_eq, hupcoming]; exact hvisit⟩

/-- What every step preserves holds of the machine that a run has come to, also if it is over. -/
theorem invariant_machine_advance
    {g : Graph}
    {o : Options}
    {P : Machine → Prop}
    (hstep : ∀ m, P m → P (m.step g o).machine)
    {m : Machine}
    (hm : P m)
    (fuel : Nat) :
    P (m.advance g o fuel).machine := by
  induction fuel generalizing m with
  | zero =>
      exact hm
  | succ fuel ih =>
      have hnext := hstep m hm
      rw [advance_succ]
      cases hprogress : m.step g o with
      | running next =>
          rw [hprogress] at hnext
          exact ih hnext
      | ended final result =>
          rw [hprogress] at hnext
          exact hnext

end Machine

section Pairs

/-- Two runs at the same point: both go on, or both are over in the same way. -/
inductive Progress.Paired (R : Machine → Machine → Prop) : Progress → Progress → Prop
  | running
      {m m' : Machine}
      (h : R m m') :
      Paired R (.running m) (.running m')
  | ended
      {m m' : Machine}
      {halt : Except RunError String}
      (h : R m m') :
      Paired R (.ended m halt) (.ended m' halt)

namespace Progress

variable {R : Machine → Machine → Prop}
variable {p p' : Progress}

theorem Paired.machine
    (h : Paired R p p') :
    R p.machine p'.machine := by
  cases h with
  | running h => exact h
  | ended h => exact h

theorem Paired.exists_ended
    {m : Machine}
    {halt : Except RunError String}
    (h : Paired R p p')
    (hp : p = .ended m halt) :
    ∃ m', p' = .ended m' halt ∧ R m m' := by
  cases h with
  | running h => cases hp
  | ended h =>
      cases hp
      exact ⟨_, rfl, h⟩

theorem Paired.swap
    (h : Paired R p p') :
    Paired (Function.swap R) p' p := by
  cases h with
  | running h => exact .running h
  | ended h => exact .ended h

end Progress

namespace Machine

variable {R : Machine → Machine → Prop}
variable {g g' : Graph}
variable {o o' : Options}
variable {m m' : Machine}

/-- Machines go on to the same successor, or end in the same way. -/
theorem paired_proceed
    {n n' : Node}
    {answer : Option Bool}
    {taken : Bool}
    (hname : n'.name = n.name)
    (hnext : n'.next answer = n.next answer)
    (h : R m m')
    (hgo : ∀ name origin,
      R { m with current := name, origin := origin }
        { m' with current := name, origin := origin }) :
    Progress.Paired R (m.proceed n answer taken) (m'.proceed n' answer taken) := by
  unfold proceed
  rw [hname, hnext]
  cases taken with
  | false =>
      exact .ended h
  | true =>
      cases n.next answer with
      | none => exact .ended h
      | some name => exact .running (hgo name (some n.name))

/-- Two runs that stay together in each step are together all the way. -/
theorem paired_advance
    (hstep : ∀ m m', R m m' → Progress.Paired R (m.step g o) (m'.step g' o'))
    (h : R m m')
    (fuel : Nat) :
    Progress.Paired R (m.advance g o fuel) (m'.advance g' o' fuel) := by
  induction fuel generalizing m m' with
  | zero =>
      exact .running h
  | succ fuel ih =>
      have hpaired := hstep m m' h
      rw [advance_succ, advance_succ]
      generalize m.step g o = p at hpaired ⊢
      generalize m'.step g' o' = p' at hpaired ⊢
      cases hpaired with
      | running hnext => exact ih hnext
      | ended hfinal => exact .ended hfinal

end Machine

def Options.withDebug (o : Options) (debug : Bool) : Options :=
  { o with debug := debug }

namespace Machine

/-- Two machines that differ in output and log at most. -/
structure Alike (m m' : Machine) : Prop where
  memory_eq : m'.memory = m.memory
  steps_eq : m'.steps = m.steps
  diagnostics_eq : m'.diagnostics = m.diagnostics
  current_eq : m'.current = m.current
  origin_eq : m'.origin = m.origin

variable {m m' : Machine}

/-- Machines that are alike have the same way before them. -/
theorem Alike.upcoming_eq
    (h : Alike m m')
    (g : Graph)
    (o : Options)
    (debug debug' : Bool) :
    m'.upcoming g (o.withDebug debug') = m.upcoming g (o.withDebug debug) := by
  unfold upcoming
  rw [h.steps_eq, h.current_eq, h.origin_eq]
  rfl

theorem Alike.executed
    (h : Alike m m')
    (o : Options)
    (debug debug' : Bool)
    (n : Node)
    (log log' : Log) :
    Alike (m.executed (o.withDebug debug) n log) (m'.executed (o.withDebug debug') n log') where
  memory_eq := by
    simp only [Machine.executed, h.memory_eq]
    rfl
  steps_eq := by
    simp only [Machine.executed, h.steps_eq]
  diagnostics_eq := by
    simp only [Machine.executed, h.memory_eq, h.steps_eq, h.diagnostics_eq]
    rfl
  current_eq := h.current_eq
  origin_eq := h.origin_eq

theorem Alike.goTo
    (h : Alike m m')
    (name : String)
    (origin : Option String) :
    Alike { m with current := name, origin := origin }
      { m' with current := name, origin := origin } where
  memory_eq := h.memory_eq
  steps_eq := h.steps_eq
  diagnostics_eq := h.diagnostics_eq
  current_eq := rfl
  origin_eq := rfl

end Machine

/-- Runs that end alike have the same result, memory and skipped operations. -/
theorem Session.conclude_of_alike
    {m m' : Machine}
    (h : m.Alike m')
    (g : Graph)
    (o o' : Options)
    (halt : Except RunError String) :
    (conclude g o' halt m').1 = (conclude g o halt m).1 ∧
      (conclude g o' halt m').2.memory = (conclude g o halt m).2.memory ∧
      (conclude g o' halt m').2.recovered = (conclude g o halt m).2.recovered := by
  refine ⟨?_, ?_, ?_⟩
  · cases halt with
    | ok name => simp [conclude, h.steps_eq, h.memory_eq, h.diagnostics_eq]
    | error err => rfl
  · rw [memory_conclude, memory_conclude, h.memory_eq]
  · cases halt with
    | ok name => rfl
    | error err => exact h.diagnostics_eq

end Pairs

end Run
end GraphMachine
