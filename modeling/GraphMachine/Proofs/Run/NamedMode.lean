import GraphMachine.Proofs.Operation.Reads
import GraphMachine.Proofs.Run.Diagnostics

/-!
# The named mode extends the tape mode

In the tape mode every use of a name is an error of its own kind.  Both modes look at the parts of
an operation in the same order, so as long as this error does not come up they do the same.  A run
that never notes it is therefore the same run in the named mode, step by step.
-/

namespace GraphMachine

/-- A name is used although only the tape may be addressed. -/
def EvalError.NamesDisabled (err : EvalError) : Prop :=
  ∃ name, err = .namedMemoryDisabled name

/-- An operation was skipped because it uses a name. -/
def OperationError.NamesDisabled (err : OperationError) : Prop :=
  ∃ name, err = .eval (.namedMemoryDisabled name)

/-- References that can be used in the tape mode read and write the same in the named mode. -/
theorem Scope.agrees_named
    (m : Memory) :
    Scope.Agrees EvalError.NamesDisabled ⟨m, .tape⟩ ⟨m, .named⟩ where
  read r := by
    cases r with
    | current => exact .refl _
    | relative offset => exact .refl _
    | named name => exact agrees_error ⟨name, rfl⟩ _
  permit r := by
    cases r with
    | current => exact .refl _
    | relative offset => exact .refl _
    | named name => exact agrees_error ⟨name, rfl⟩ _

namespace Run

def Options.inMode (o : Options) (mode : AddressingMode) : Options :=
  { o with mode := mode }

/-- No operation was skipped because it uses a name. -/
def Nameless (ds : Array Diagnostic) : Prop :=
  ∀ d ∈ ds, ¬ d.error.NamesDisabled

section Steps

variable {g : Graph}
variable {o : Options}
variable {n : Node}

/-- A node does the same in both modes if its operation uses no name in the tape mode. -/
theorem perform_named
    {memory : Memory}
    (h : ∀ err,
      (attempt (o.inMode .tape) n memory).result = .error err → ¬ err.NamesDisabled)
    (out : Sink) :
    perform (o.inMode .named) n memory out = perform (o.inMode .tape) n memory out := by
  cases hoperation : n.operation with
  | none =>
      simp only [perform_eq_effect, hoperation]
  | some text =>
      cases hparse : Operation.parse text with
      | error err =>
          simp only [perform_eq_effect, hoperation, hparse]
      | ok op =>
          have heffect :
              op.effect ⟨memory, .named⟩ o.maxDepth = op.effect ⟨memory, .tape⟩ o.maxDepth := by
            apply (Operation.agrees_effect (Scope.agrees_named memory) o.maxDepth op).eq
            rintro err ⟨name, rfl⟩ herror
            refine h (.eval (.namedMemoryDisabled name)) ?_ ⟨name, rfl⟩
            simp only [attempt, hoperation, hparse, Options.inMode, herror]
          cases htape : op.effect ⟨memory, .tape⟩ o.maxDepth with
          | error err =>
              rw [htape] at heffect
              simp only [perform_eq_effect, hoperation, hparse, Options.inMode, heffect, htape]
          | ok eff =>
              rw [htape] at heffect
              simp only [perform_eq_effect, hoperation, hparse, Options.inMode, heffect, htape]

namespace Machine

theorem visit_named
    {m : Machine}
    (h : Nameless (m.visit (o.inMode .tape) n).machine.diagnostics) :
    m.visit (o.inMode .named) n = m.visit (o.inMode .tape) n := by
  obtain ⟨log, hvisit⟩ := m.visit_eq (o.inMode .tape) n
  have hperform :
      perform (o.inMode .named) n m.memory m.out = perform (o.inMode .tape) n m.memory m.out := by
    apply perform_named
    -- The error of the operation would be among the notes after this step.
    intro err herr
    apply h ⟨m.steps + 1, n.name, n.operationSpan, err⟩
    rw [hvisit, diagnostics_machine_proceed]
    exact Array.mem_append_right _ (Attempt.mem_diagnostics_iff.mpr ⟨err, herr, rfl⟩)
  have hleave (answer : Option Bool) (m' : Machine) :
      m'.leave (o.inMode .named) n answer = m'.leave (o.inMode .tape) n answer := by
    rfl
  unfold visit
  simp only [hperform, hleave]

theorem step_named
    {m : Machine}
    (h : Nameless (m.step g (o.inMode .tape)).machine.diagnostics) :
    m.step g (o.inMode .named) = m.step g (o.inMode .tape) := by
  have hupcoming : m.upcoming g (o.inMode .named) = m.upcoming g (o.inMode .tape) := by
    rfl
  rw [step_eq] at h
  rw [step_eq, step_eq, hupcoming]
  cases hnext : m.upcoming g (o.inMode .tape) with
  | error halt =>
      rfl
  | ok n =>
      rw [hnext] at h
      exact visit_named h

/-- No note gets lost. -/
theorem mem_diagnostics_advance
    {m : Machine}
    {d : Diagnostic}
    (hd : d ∈ m.diagnostics)
    (fuel : Nat) :
    d ∈ (m.advance g o fuel).machine.diagnostics := by
  have hkeeps {m' : Machine} (h : ∃ count, Extends count m m') : d ∈ m'.diagnostics := by
    obtain ⟨count, hextends⟩ := h
    obtain ⟨ds, hds⟩ := hextends.diagnostics_grow
    rw [hds]
    exact Array.mem_append_left _ hd
  cases hadvance : m.advance g o fuel with
  | running m' => exact hkeeps ⟨fuel, extends_of_advance_running hadvance⟩
  | ended m' result => exact hkeeps (exists_extends_of_advance_ended hadvance)

/-- Runs without a note about names are the same in both modes. -/
theorem advance_named
    {m : Machine}
    {fuel : Nat}
    (h : Nameless (m.advance g (o.inMode .tape) fuel).machine.diagnostics) :
    m.advance g (o.inMode .named) fuel = m.advance g (o.inMode .tape) fuel := by
  induction fuel generalizing m with
  | zero =>
      rfl
  | succ fuel ih =>
      rw [advance_succ] at h
      rw [advance_succ, advance_succ]
      have hstep : m.step g (o.inMode .named) = m.step g (o.inMode .tape) := by
        apply step_named
        cases hnext : m.step g (o.inMode .tape) with
        | running next =>
            rw [hnext] at h
            exact fun d hd => h d (mem_diagnostics_advance hd fuel)
        | ended final result =>
            rw [hnext] at h
            exact h
      rw [hstep]
      cases hnext : m.step g (o.inMode .tape) with
      | running next =>
          rw [hnext] at h
          exact ih h
      | ended final result =>
          rfl

end Machine

end Steps

namespace Session

def inMode (s : Session) (mode : AddressingMode) : Session :=
  { s with options := s.options.inMode mode }

theorem progress_named
    {s : Session}
    {fuel : Nat}
    (h : Nameless ((s.inMode .tape).progress fuel).machine.diagnostics) :
    (s.inMode .named).progress fuel = (s.inMode .tape).progress fuel :=
  Machine.advance_named h

theorem ended_named
    {s : Session}
    {fuel : Nat}
    {final : Machine}
    {halt : Except RunError String}
    (h : (s.inMode .tape).progress fuel = .ended final halt)
    (hnameless : Nameless final.diagnostics) :
    (s.inMode .named).progress fuel = .ended final halt := by
  rw [← h]
  apply progress_named
  rw [h]
  exact hnameless

theorem conclude_named
    (g : Graph)
    (o : Options)
    (halt : Except RunError String)
    (m : Machine) :
    conclude g (o.inMode .named) halt m =
      ((conclude g (o.inMode .tape) halt m).1,
        (conclude g (o.inMode .tape) halt m).2.inMode .named) := by
  cases halt with
  | error err => rfl
  | ok haltedAt => rfl

/-- The named mode extends the tape mode.  A run in the tape mode that notes no use of a name is
the same in the named mode: it has the same result and leaves the same memory, notes, output and
log.  Up to its first note about a name, also a run that does not end or that has such a note is
the same. -/
theorem named_extends_tape
    (s : Session) :
    (∀ fuel,
      Nameless ((s.inMode .tape).progress fuel).machine.diagnostics →
      (s.inMode .named).progress fuel = (s.inMode .tape).progress fuel) ∧
    (∀ executed result after,
      (s.inMode .tape).Ends executed result after →
      Nameless (after.skipped result) →
      (s.inMode .named).Ends executed result (after.inMode .named)) ∧
    ∀ result after,
      (s.inMode .tape).run = some (result, after) →
      Nameless (after.skipped result) →
      (s.inMode .named).run = some (result, after.inMode .named) := by
  refine ⟨fun fuel => progress_named, ?_, ?_⟩
  · rintro executed result after ⟨fuel, final, halt, hended, rfl, hconclude⟩ hnameless
    obtain ⟨rfl, rfl⟩ := Prod.ext_iff.mp hconclude
    rw [skipped_conclude] at hnameless
    exact ⟨fuel, final, halt, ended_named hended hnameless, rfl,
      conclude_named s.graph s.options halt final⟩
  · intro result after hrun hnameless
    unfold run at hrun ⊢
    rw [runWithin_eq] at hrun ⊢
    cases hprogress : (s.inMode .tape).progress (s.inMode .tape).options.horizon with
    | running m =>
        rw [hprogress] at hrun
        cases hrun
    | ended final halt =>
        rw [hprogress] at hrun
        obtain ⟨rfl, rfl⟩ := Prod.ext_iff.mp (Option.some.inj hrun)
        rw [skipped_conclude] at hnameless
        have hnamed : (s.inMode .named).progress (s.inMode .named).options.horizon =
            .ended final halt :=
          ended_named hprogress hnameless
        rw [hnamed]
        exact congrArg some (conclude_named s.graph s.options halt final)

/-- A program that skips each of its operations.  All of them use a name, but after another
error. -/
def masking : Session :=
  .new
    (Program.parse
      ("<start>[a]\x7bSET(1 / 0 + x)\x7d\n<a>[b]\x7bSET(x, 1 +)\x7d\n" ++
        "<b>\x7bOUTPUT('\x7b99999999999999999999\x7d\x7bx\x7d')\x7d"))
    .standard .unlimited .off

/-- What is reported of the program, with one note for each operation. -/
def maskingReport : Report where
  steps := 3
  haltedAt := "b"
  pointer := 0
  diagnostics :=
    #[⟨1, "start", some ⟨11, 25⟩, .eval .divisionByZero⟩,
      ⟨2, "a", some ⟨34, 45⟩, .eval (.invalidExpression "1 +" 3 Expectation.operands)⟩,
      ⟨3, "b", some ⟨51, 86⟩, .eval (.invalidNumber "99999999999999999999")⟩]

/-- The other errors hide the names, so the named mode reports the same. -/
theorem masking_named :
    Nameless maskingReport.diagnostics ∧
      ∃ after,
        (masking.inMode .tape).Ends 3 (.ok maskingReport) after ∧
        (masking.inMode .named).Ends 3 (.ok maskingReport) (after.inMode .named) := by
  have hnameless : Nameless maskingReport.diagnostics := by
    intro d hd
    simp only [maskingReport, List.mem_toArray, List.mem_cons, List.not_mem_nil, or_false] at hd
    rcases hd with rfl | rfl | rfl
    · rintro ⟨name, hname⟩
      cases hname
    · rintro ⟨name, hname⟩
      cases hname
    · rintro ⟨name, hname⟩
      cases hname
  have hresult :
      ((masking.inMode .tape).runWithin 3).map Prod.fst = some (.ok maskingReport) := by
    decide +kernel
  obtain ⟨⟨result, after⟩, hrun, rfl⟩ := Option.map_eq_some_iff.mp hresult
  have hends : (masking.inMode .tape).Ends 3 (.ok maskingReport) after := ends_of_runWithin_ok hrun
  exact ⟨hnameless, after, hends, (named_extends_tape masking).2.1 _ _ _ hends hnameless⟩

end Session
end Run
end GraphMachine
