import GraphMachine.Proofs.Operation.Reads

/-!
# The depth limit of evaluation

The evaluator counts how deeply it stands in a tree.  After an evaluation the count is what it was
before, also if the evaluation failed, so one evaluator serves for any number of trees.

The limit decides whether there is a value, and never which.  A tree that is no higher than the
limit has the value that it has without a limit, and a higher tree has none.  Only the error that
names the limit depends on it: every other result is the same under all higher limits.
-/

namespace GraphMachine
namespace Expr

section Counter

variable {α β : Type}

/-- After the evaluation the evaluator stands where it stood before, whatever the result is. -/
def Restores (x : EvalM α) : Prop :=
  ∀ depth, (x depth).2 = depth

theorem restores_pure
    (a : α) :
    Restores (pure a) :=
  fun _ => rfl

theorem restores_lift
    (r : Except EvalError α) :
    Restores (liftM r) := by
  intro depth
  cases r with
  | error err => rfl
  | ok a => rfl

theorem Restores.bind
    {x : EvalM α}
    {f : α → EvalM β}
    (hx : Restores x)
    (hf : ∀ a, Restores (f a)) :
    Restores (x >>= f) := by
  intro depth
  have hdepth := hx depth
  rw [bind_apply]
  rcases hdone : x depth with ⟨_ | a, below⟩
  · rw [hdone] at hdepth
    exact hdepth
  · rw [hdone] at hdepth
    exact (hf a below).trans hdepth

theorem Restores.nested
    {x : EvalM α}
    (hx : Restores x)
    (limit : Nat) :
    Restores (nested limit x) := by
  intro depth
  unfold Expr.nested
  split
  · have hbelow := hx (depth + 1)
    change (x (depth + 1)).2 - 1 = depth
    omega
  · rfl

/-- The evaluator is back at its level after every tree. -/
theorem restores_evalM
    (s : Scope)
    (limit : Nat)
    (e : Expr) :
    Restores (evalM s limit e) := by
  induction e with
  | integer v =>
      exact (restores_pure _).nested limit
  | ident name =>
      exact ((restores_lift _).bind fun _ => restores_pure _).nested limit
  | neg e ih =>
      exact (ih.bind fun _ => restores_pure _).nested limit
  | binary op l r ihl ihr =>
      exact (ihl.bind fun _ => ihr.bind fun _ => restores_lift _).nested limit

/-- Trees that are evaluated one after the other all start at the same level. -/
theorem mapM_evalM
    (s : Scope)
    (limit : Nat)
    (es : List Expr)
    (depth : Nat) :
    (es.mapM fun e => (evalM s limit e).run).run depth =
      (es.map fun e => (evalM s limit e depth).1, depth) := by
  induction es with
  | nil =>
      rfl
  | cons e es ih =>
      have hfirst : (evalM s limit e).run.run depth = ((evalM s limit e depth).1, depth) :=
        Prod.ext rfl (restores_evalM s limit e depth)
      rw [List.mapM_cons, StateT.run_bind, hfirst]
      change ((es.mapM fun e => (evalM s limit e).run) >>= fun rest =>
        pure ((evalM s limit e depth).1 :: rest)).run depth = _
      rw [StateT.run_bind, ih]
      rfl

/-- One evaluator gives the answers of fresh ones. -/
theorem evalAll_eq_map
    (s : Scope)
    (limit : Nat)
    (es : List Expr) :
    evalAll s limit es = es.map fun e => e.eval s limit := by
  unfold evalAll
  rw [mapM_evalM]
  rfl

end Counter

section Height

variable {α β : Type}
variable {x : EvalM α}
variable {f : α → EvalM β}
variable {depth : Nat}

/-- The evaluation has no value if it starts at this level. -/
def FailsAt (x : EvalM α) (depth : Nat) : Prop :=
  ∃ err, (x depth).1 = .error err

theorem FailsAt.bind
    (hx : FailsAt x depth)
    (f : α → EvalM β) :
    FailsAt (x >>= f) depth := by
  obtain ⟨err, herr⟩ := hx
  refine ⟨err, ?_⟩
  rw [bind_apply]
  rcases hdone : x depth with ⟨_ | a, below⟩
  · rw [hdone] at herr
    cases herr
    rfl
  · rw [hdone] at herr
    cases herr

/-- An evaluation that fails from its second part on. -/
theorem Restores.failsAt_bind
    (hx : Restores x)
    (hf : ∀ a, FailsAt (f a) depth) :
    FailsAt (x >>= f) depth := by
  have hdepth := hx depth
  unfold FailsAt
  rw [bind_apply]
  rcases hdone : x depth with ⟨err | a, below⟩
  · exact ⟨err, rfl⟩
  · rw [hdone] at hdepth
    subst hdepth
    exact hf a

theorem failsAt_nested
    {limit : Nat}
    (hx : depth < limit → FailsAt x (depth + 1)) :
    FailsAt (nested limit x) depth := by
  unfold FailsAt Expr.nested
  split
  · next hdepth => exact hx hdepth
  · exact ⟨_, rfl⟩

/-- Where the limit leaves no room for the whole tree, there is no value. -/
theorem failsAt_evalM
    (s : Scope)
    {limit : Nat}
    (e : Expr)
    (hheight : limit < depth + e.height) :
    FailsAt (evalM s limit e) depth := by
  induction e generalizing depth with
  | integer v =>
      refine failsAt_nested fun hdepth => ?_
      simp only [height] at hheight
      omega
  | ident name =>
      refine failsAt_nested fun hdepth => ?_
      simp only [height] at hheight
      omega
  | neg e ih =>
      simp only [height] at hheight
      refine failsAt_nested fun _ => ?_
      exact (ih (by omega)).bind _
  | binary op l r ihl ihr =>
      simp only [height] at hheight
      refine failsAt_nested fun _ => ?_
      -- One of the operands is too high; if it is the right one, the left one leaves no trace.
      by_cases hl : limit < depth + 1 + l.height
      · exact (ihl hl).bind _
      · have hr : limit < depth + 1 + r.height := by omega
        exact (restores_evalM s limit l).failsAt_bind fun _ => (ihr hr).bind _

end Height

section Raising

variable {limit limit' : Nat}

/-- A higher limit changes no result but the error that names the lower one. -/
theorem agreesM_of_limit_le
    (s : Scope)
    (hle : limit ≤ limit')
    (e : Expr) :
    AgreesM (· = .depthExceeded limit) (evalM s limit e) (evalM s limit' e) := by
  induction e with
  | integer v =>
      exact (AgreesM.refl _).nested_of_le hle fun _ => rfl
  | ident name =>
      exact (AgreesM.refl _).nested_of_le hle fun _ => rfl
  | neg e ih =>
      exact (ih.bind fun _ => .refl _).nested_of_le hle fun _ => rfl
  | binary op l r ihl ihr =>
      exact (ihl.bind fun _ => ihr.bind fun _ => .refl _).nested_of_le hle fun _ => rfl

theorem eval_eq_of_limit_le
    {s : Scope}
    {e : Expr}
    (hle : limit ≤ limit')
    (hresult : ∀ n, e.eval s limit ≠ .error (.depthExceeded n)) :
    e.eval s limit' = e.eval s limit := by
  rcases agreesM_of_limit_le s hle e 0 with heq | ⟨err, below, rfl, heq⟩
  · exact congrArg Prod.fst heq
  · exact absurd (congrArg Prod.fst heq) (hresult limit)

end Raising

/-- The depth limit is exact and leaves no trace.  A tree within the limit has the value that it has
without one, a higher tree has an error.  Every result but an exceeded depth is the same under all
higher limits.  After each tree the evaluator stands at the level at which it stood before, so one
evaluator gives for any trees the answers that fresh ones give. -/
theorem depth_limit_exact
    (s : Scope)
    (limit : Nat)
    (e : Expr) :
    (e.height ≤ limit → e.eval s limit = e.value s) ∧
    (limit < e.height → ∃ err, e.eval s limit = .error err) ∧
    (∀ limit', limit ≤ limit' →
      (∀ n, e.eval s limit ≠ .error (.depthExceeded n)) →
        e.eval s limit' = e.eval s limit) ∧
    (∀ depth, ((evalM s limit e).run.run depth).2 = depth) ∧
    (∀ es, evalAll s limit es = es.map fun e' => e'.eval s limit) := by
  refine ⟨eval_of_height_le, ?_, ?_, restores_evalM s limit e, evalAll_eq_map s limit⟩
  · intro hheight
    exact failsAt_evalM s e (by omega)
  · intro limit' hle hresult
    exact eval_eq_of_limit_le hle hresult

/-- A quotient of height 2 that fails, before an operand of height 4. -/
def lopsided : Expr :=
  .binary (.arith .add) (.binary (.arith .div) (.integer 1) (.integer 0))
    (.neg (.neg (.neg (.integer 5))))

/-- Two levels are too few for the quotient.  With three it fails as it does with four and with all
five, although the operand to its right is too high. -/
theorem lopsided_depth_limit :
    (lopsided.height ≤ 5 ∧
      lopsided.eval ⟨.empty, .tape⟩ 5 = lopsided.value ⟨.empty, .tape⟩) ∧
    (2 < lopsided.height ∧ ∃ err, lopsided.eval ⟨.empty, .tape⟩ 2 = .error err) ∧
    (lopsided.eval ⟨.empty, .tape⟩ 3 = .error .divisionByZero ∧
      lopsided.eval ⟨.empty, .tape⟩ 4 = lopsided.eval ⟨.empty, .tape⟩ 3) := by
  have hthree : lopsided.eval ⟨.empty, .tape⟩ 3 = .error .divisionByZero := rfl
  refine ⟨⟨by decide, (depth_limit_exact _ 5 lopsided).1 (by decide)⟩,
    ⟨by decide, (depth_limit_exact _ 2 lopsided).2.1 (by decide)⟩, hthree, ?_⟩
  exact (depth_limit_exact _ 3 lopsided).2.2.1 4 (by decide) (by simp [hthree])

end Expr
end GraphMachine
