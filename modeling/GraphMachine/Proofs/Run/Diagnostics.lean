import GraphMachine.Proofs.Run.Execution

/-!
# Skipped operations

A run notes each operation that it skips, together with the step, the node and the reason.  After a
run that succeeds the notes are in the report, and after one that fails they wait in the session.

`Session.Records` says that notes are complete and right up to some step: they are in the order of
the steps, and there is one for exactly those steps whose operation fails, in the memory at that
step, for another reason than the output.  Each step preserves this, so it holds at the end.
-/

namespace GraphMachine

namespace Run

theorem Attempt.mem_diagnostics_iff
    {a : Attempt}
    {step : Nat}
    {n : Node}
    {d : Diagnostic} :
    d ∈ a.diagnostics step n ↔
      ∃ err, a.result = .error err ∧ d = ⟨step, n.name, n.operationSpan, err⟩ := by
  unfold Attempt.diagnostics
  cases a.result with
  | ok answer => simp
  | error err => simp

/-- An operation is skipped exactly if reading and doing it fails for another reason than the
output.  The output has no part in it. -/
theorem attempt_result_eq_error_iff
    {o : Options}
    {n : Node}
    {memory : Memory}
    {err : OperationError}
    (out : Sink) :
    (attempt o n memory).result = .error err ↔
      ∃ text,
        n.operation = some text ∧
        (Operation.perform text ⟨memory, o.mode⟩ o.maxDepth out).result = .error err ∧
        err ≠ .output := by
  cases hoperation : n.operation with
  | none =>
      simp [attempt, hoperation]
  | some text =>
      cases hparse : Operation.parse text with
      | error reason =>
          have hreason : reason ≠ .output := by
            rintro rfl
            exact Operation.parse_ne_output text hparse
          simp only [attempt, hoperation, hparse, Operation.perform_eq]
          grind
      | ok op =>
          cases heffect : op.effect ⟨memory, o.mode⟩ o.maxDepth with
          | error reason =>
              simp only [attempt, hoperation, hparse, heffect, Operation.perform_eq,
                Operation.execute_eq]
              grind
          | ok eff =>
              simp only [attempt, hoperation, hparse, heffect, Operation.perform_eq,
                Operation.execute_eq]
              grind

namespace Session

/-- In the next step after so many a run executes this node, from this machine. -/
structure Executes (s : Session) (i : Nat) (m : Machine) (n : Node) : Prop where
  running : s.progress i = .running m
  declared : s.graph.get? m.current = some n
  /-- The step is counted. -/
  counted : (s.progress (i + 1)).machine.steps = i + 1

/-- Notes of skipped operations that are complete and right up to so many executed nodes. -/
structure Records (s : Session) (count : Nat) (ds : Array Diagnostic) : Prop where
  executes : ∀ i < count, ∃ m n, s.Executes i m n
  increasing : ds.toList.Pairwise fun d e => d.step < e.step
  mem_iff : ∀ d, d ∈ ds ↔
    ∃ i < count, ∃ m n,
      s.Executes i m n ∧ d ∈ (attempt s.options n m.memory).diagnostics (i + 1) n

section Recording

variable {s : Session}
variable {count i : Nat}
variable {m m' : Machine}
variable {n n' : Node}
variable {ds : Array Diagnostic}

theorem Executes.unique
    (h : s.Executes i m n)
    (h' : s.Executes i m' n') :
    m = m' ∧ n = n' := by
  have hm : Progress.running m = .running m' := h.running.symm.trans h'.running
  cases hm
  have hn : some n = some n' := h.declared.symm.trans h'.declared
  cases hn
  exact ⟨rfl, rfl⟩

theorem records_zero
    (s : Session) :
    s.Records 0 #[] where
  executes := by simp
  increasing := by simp
  mem_iff := by simp

/-- Notes of steps up to some number have no higher number. -/
theorem Records.step_le
    (h : s.Records count ds)
    {d : Diagnostic}
    (hd : d ∈ ds) :
    1 ≤ d.step ∧ d.step ≤ count := by
  obtain ⟨i, hi, m, n, -, hmem⟩ := (h.mem_iff d).mp hd
  obtain ⟨err, -, rfl⟩ := Attempt.mem_diagnostics_iff.mp hmem
  exact ⟨Nat.succ_pos i, hi⟩

/-- The notes of one step are those of the node that it executes. -/
theorem Records.mem_and_step_iff
    (h : s.Records count ds)
    (hi : i < count)
    (hexecutes : s.Executes i m n)
    {d : Diagnostic} :
    d ∈ ds ∧ d.step = i + 1 ↔ d ∈ (attempt s.options n m.memory).diagnostics (i + 1) n := by
  rw [h.mem_iff]
  constructor
  · rintro ⟨⟨j, -, m', n', hexecutes', hd⟩, hstep⟩
    obtain ⟨err, -, rfl⟩ := Attempt.mem_diagnostics_iff.mp hd
    obtain rfl : j = i := Nat.succ.inj hstep
    obtain ⟨rfl, rfl⟩ := hexecutes.unique hexecutes'
    exact hd
  · intro hd
    obtain ⟨err, -, rfl⟩ := Attempt.mem_diagnostics_iff.mp hd
    exact ⟨⟨i, hi, m, n, hexecutes, hd⟩, rfl⟩

theorem Records.error_ne_output
    (h : s.Records count ds)
    {d : Diagnostic}
    (hd : d ∈ ds) :
    d.error ≠ .output := by
  obtain ⟨i, -, m, n, -, hmem⟩ := (h.mem_iff d).mp hd
  obtain ⟨err, hresult, rfl⟩ := Attempt.mem_diagnostics_iff.mp hmem
  obtain ⟨text, -, -, hne⟩ := (attempt_result_eq_error_iff m.out).mp hresult
  exact hne

/-- Executing one more node, and noting its operation if it is skipped. -/
theorem Records.succ
    (h : s.Records count ds)
    (hexecutes : s.Executes count m n) :
    s.Records (count + 1)
      (ds ++ (attempt s.options n m.memory).diagnostics (count + 1) n) where
  executes := by
    intro i hi
    rcases Nat.lt_succ_iff_lt_or_eq.mp hi with hlt | rfl
    · exact h.executes i hlt
    · exact ⟨m, n, hexecutes⟩
  increasing := by
    rw [Array.toList_append, List.pairwise_append]
    refine ⟨h.increasing, ?_, ?_⟩
    · unfold Attempt.diagnostics
      cases (attempt s.options n m.memory).result <;> simp
    · -- All notes from before have lower numbers than the new one.
      intro d hd e he
      have hle := (h.step_le (Array.mem_toList_iff.mp hd)).2
      obtain ⟨err, -, rfl⟩ := Attempt.mem_diagnostics_iff.mp (Array.mem_toList_iff.mp he)
      exact Nat.lt_succ_of_le hle
  mem_iff := by
    intro d
    rw [Array.mem_append, h.mem_iff]
    constructor
    · rintro (⟨i, hi, hskipped⟩ | hd)
      · exact ⟨i, Nat.lt_succ_of_lt hi, hskipped⟩
      · exact ⟨count, Nat.lt_succ_self count, m, n, hexecutes, hd⟩
    · rintro ⟨i, hi, m', n', hexecutes', hd⟩
      rcases Nat.lt_succ_iff_lt_or_eq.mp hi with hlt | rfl
      · exact .inl ⟨i, hlt, m', n', hexecutes', hd⟩
      · obtain ⟨rfl, rfl⟩ := hexecutes.unique hexecutes'
        exact .inr hd

/-- At every point of a run the notes are complete and right. -/
theorem records_progress
    (s : Session)
    (fuel : Nat) :
    s.Records (s.progress fuel).machine.steps (s.progress fuel).machine.diagnostics := by
  induction fuel with
  | zero =>
      exact records_zero s
  | succ fuel ih =>
      cases hprogress : s.progress fuel with
      | ended final halt =>
          have hsame : s.progress (fuel + 1) = .ended final halt :=
            Machine.advance_of_ended 1 hprogress
          rw [hsame]
          rw [hprogress] at ih
          exact ih
      | running m =>
          rw [hprogress] at ih
          have hsteps : m.steps = fuel := steps_of_progress_running hprogress
          have hnext := progress_succ_eq_step hprogress
          rcases m.step_cases s.graph s.options with
            ⟨halt, -, hstep⟩ | ⟨n, log, hupcoming, hstep⟩
          · -- The run is over before the next node, with the notes that it has.
            rw [hnext, hstep]
            exact ih
          · have hcounted : (s.progress (fuel + 1)).machine.steps = fuel + 1 := by
              rw [hnext, hstep, Machine.steps_machine_proceed, ← hsteps]
              rfl
            rw [hcounted, hnext, hstep, Machine.diagnostics_machine_proceed]
            have hrecords : s.Records fuel m.diagnostics := by
              rw [← hsteps]
              exact ih
            have hexecuted :
                (m.executed s.options n log).diagnostics =
                  m.diagnostics ++ (attempt s.options n m.memory).diagnostics (fuel + 1) n := by
              rw [← hsteps]
              rfl
            rw [hexecuted]
            exact hrecords.succ ⟨hprogress, Machine.get?_of_upcoming hupcoming, hcounted⟩

end Recording

/-- No skipped operation is lost, made up or put down to another node.  The notes of a run are in
its report if it succeeds, and are taken from the session once if it fails.  Their steps increase
and are steps of the run, and none is about the output.  For each step there is a note exactly if
the node that is executed has an operation that cannot be read, or cannot be done with the memory
at this step, for another reason than the output; the note then has the name of the node, the span
of the operation and this reason. -/
theorem ends_with_notes
    {s after : Session}
    {executed : Nat}
    {result : Except RunError Report}
    (h : s.Ends executed result after) :
    ∃ ds : Array Diagnostic,
      (∀ report,
        result = .ok report →
        report.diagnostics = ds ∧ after.takeDiagnostics.1 = #[]) ∧
      (∀ err,
        result = .error err →
        after.takeDiagnostics.1 = ds ∧ after.takeDiagnostics.2.takeDiagnostics.1 = #[]) ∧
      (ds.toList.Pairwise fun d e => d.step < e.step) ∧
      (∀ d ∈ ds, 1 ≤ d.step ∧ d.step ≤ executed ∧ d.error ≠ .output) ∧
      ∀ i < executed,
        ∃ m n,
          s.Executes i m n ∧
          ∀ d,
            d ∈ ds ∧ d.step = i + 1 ↔
              ∃ text err,
                n.operation = some text ∧
                (Operation.perform text ⟨m.memory, s.options.mode⟩ s.options.maxDepth
                  m.out).result = .error err ∧
                err ≠ .output ∧
                d = ⟨i + 1, n.name, n.operationSpan, err⟩ := by
  obtain ⟨fuel, final, halt, hprogress, rfl, hconclude⟩ := h
  obtain ⟨rfl, rfl⟩ := Prod.ext_iff.mp hconclude
  have hrecords : s.Records final.steps final.diagnostics := by
    have hend := s.records_progress fuel
    rw [hprogress] at hend
    exact hend
  refine ⟨final.diagnostics, ?_, ?_, hrecords.increasing, ?_, ?_⟩
  · intro report hresult
    cases halt with
    | ok name =>
        cases hresult
        exact ⟨rfl, rfl⟩
    | error err =>
        cases hresult
  · intro err hresult
    cases halt with
    | ok name =>
        cases hresult
    | error err' =>
        exact ⟨rfl, rfl⟩
  · intro d hd
    obtain ⟨hpos, hle⟩ := hrecords.step_le hd
    exact ⟨hpos, hle, hrecords.error_ne_output hd⟩
  · intro i hi
    obtain ⟨m, n, hexecutes⟩ := hrecords.executes i hi
    refine ⟨m, n, hexecutes, ?_⟩
    intro d
    rw [hrecords.mem_and_step_iff hi hexecutes, Attempt.mem_diagnostics_iff]
    simp only [attempt_result_eq_error_iff m.out]
    constructor
    · rintro ⟨err, ⟨text, htext, hresult, hne⟩, hd⟩
      exact ⟨text, err, htext, hresult, hne, hd⟩
    · rintro ⟨text, err, htext, hresult, hne, hd⟩
      exact ⟨err, ⟨text, htext, hresult, hne⟩, hd⟩

/-- A program that skips an operation in each of its two steps, and then misses a node. -/
def twoSkips : Session :=
  .new (Program.parse "<start>[next]\x7bSET(1 / 0)\x7d\n<next>[gone]\x7bPRINT\x7d") .standard
    .unlimited .off

/-- After the run has failed both notes can be taken, and only once.  The first one is about the
division in the first step. -/
theorem twoSkips_notes :
    ∃ executed after,
      twoSkips.Ends executed (.error (.nodeNotFound "gone" (some "next"))) after ∧
      after.takeDiagnostics.1 =
        #[⟨1, "start", some ⟨14, 24⟩, .eval .divisionByZero⟩,
          ⟨2, "next", some ⟨39, 44⟩, .unsupported "PRINT"⟩] ∧
      after.takeDiagnostics.2.takeDiagnostics.1 = #[] ∧
      ∃ m n text,
        twoSkips.Executes 0 m n ∧
        n.operation = some text ∧
        (Operation.perform text ⟨m.memory, twoSkips.options.mode⟩ twoSkips.options.maxDepth
          m.out).result = .error (.eval .divisionByZero) := by
  have hresult :
      (twoSkips.runWithin 3).map (fun r => (r.1, r.2.recovered)) =
        some (.error (.nodeNotFound "gone" (some "next")),
          #[⟨1, "start", some ⟨14, 24⟩, .eval .divisionByZero⟩,
            ⟨2, "next", some ⟨39, 44⟩, .unsupported "PRINT"⟩]) := by
    decide +kernel
  obtain ⟨⟨result, after⟩, hrun, heq⟩ := Option.map_eq_some_iff.mp hresult
  obtain ⟨rfl, hrecovered⟩ := Prod.mk.inj heq
  obtain ⟨executed, hends⟩ := exists_ends_of_runWithin hrun
  obtain ⟨ds, -, herror, -, hsteps, hnotes⟩ := ends_with_notes hends
  obtain ⟨hds, hempty⟩ := herror _ rfl
  have hfirst : ⟨1, "start", some ⟨14, 24⟩, .eval .divisionByZero⟩ ∈ ds := by
    have htaken : after.takeDiagnostics.1 = after.recovered := rfl
    rw [← hds, htaken, hrecovered]
    simp
  obtain ⟨m, n, hexecutes, hiff⟩ := hnotes 0 (hsteps _ hfirst).2.1
  obtain ⟨text, err, htext, hperform, -, hnote⟩ := (hiff _).mp ⟨hfirst, rfl⟩
  obtain ⟨-, -, -, rfl⟩ := Diagnostic.mk.inj hnote
  exact ⟨executed, after, hends, hrecovered, hempty, m, n, text, hexecutes, htext, hperform⟩

end Session
end Run
end GraphMachine
