import GraphMachine.Proofs.Expr.Acceptance
import GraphMachine.Proofs.Reference.Substitution

/-!
# Where evaluation fails

Errors that are found while a text is cut or read point at a place in it.  All errors that come
later point at none: they are about the size of literals, the depth of trees, the cells that are
read, or about division.

So an evaluation says that a text is no expression exactly if its references can be replaced and
the automaton does not accept the result.
-/

namespace GraphMachine

/-- A result that is no error, or one that points at no place. -/
def Pointless {α : Type} (result : Except EvalError α) : Prop :=
  ∀ err, result = .error err → err.span? = none

theorem pointless_ok
    {α : Type}
    (a : α) :
    Pointless (.ok a) := by
  intro err herr
  cases herr

theorem pointless_error
    {α : Type}
    {err : EvalError}
    (herr : err.span? = none) :
    Pointless (.error err : Except EvalError α) := by
  rintro _ ⟨⟩
  exact herr

theorem Pointless.ne_invalidExpression
    {α : Type}
    {result : Except EvalError α}
    (hresult : Pointless result)
    (text : String)
    (position : Nat)
    (expected : List Expectation) :
    result ≠ .error (.invalidExpression text position expected) := by
  intro heq
  cases hresult _ heq

theorem Draft.pointless_toExpr
    (maxDepth : Nat)
    (t : Draft) :
    Pointless (t.toExpr maxDepth) := by
  induction t with
  | integer digits nesting =>
      simp only [toExpr]
      split
      · exact pointless_error rfl
      · split
        · exact pointless_ok _
        · exact pointless_error rfl
  | ident name nesting =>
      simp only [toExpr]
      split
      · exact pointless_error rfl
      · exact pointless_ok _
  | neg t ih =>
      simp only [toExpr]
      split
      · exact pointless_ok _
      · next err herr => exact pointless_error (ih err herr)
  | binary op l r ihl ihr =>
      simp only [toExpr]
      split
      · next err herr => exact pointless_error (ihl err herr)
      · split
        · exact pointless_ok _
        · next err herr => exact pointless_error (ihr err herr)

theorem Scope.pointless_named
    (s : Scope)
    (name : String) :
    Pointless (s.named name) := by
  unfold Scope.named
  split
  · exact pointless_ok _
  · exact pointless_error rfl

theorem ArithOp.pointless_apply
    (op : ArithOp)
    (a b : Int64) :
    Pointless (op.apply a b) := by
  have hguard (err : EvalError) (v : Int64) (herr : err.span? = none) :
      Pointless (if b = 0 then .error err else .ok v) := by
    split
    · exact pointless_error herr
    · exact pointless_ok v
  cases op with
  | add => exact pointless_ok _
  | sub => exact pointless_ok _
  | mul => exact pointless_ok _
  | div => exact hguard .divisionByZero (a / b) rfl
  | rem => exact hguard .moduloByZero (a % b) rfl

theorem Operator.pointless_apply
    (op : Operator)
    (a b : Value) :
    Pointless (op.apply a b) := by
  cases op with
  | compare op =>
      exact pointless_ok _
  | arith op =>
      simp only [Operator.apply]
      split
      · exact pointless_ok _
      · next err herr => exact pointless_error (op.pointless_apply _ _ err herr)

namespace Expr

section Evaluator

variable {α β : Type}

/-- An evaluation whose errors point at no place, wherever in the tree it stands. -/
def PointlessM (x : EvalM α) : Prop :=
  ∀ depth, Pointless (x depth).1

theorem pointlessM_nested
    (limit : Nat)
    {x : EvalM α}
    (hx : PointlessM x) :
    PointlessM (nested limit x) := by
  intro depth
  unfold nested
  split
  · exact hx (depth + 1)
  · exact pointless_error rfl

theorem pointlessM_bind
    {x : EvalM α}
    {f : α → EvalM β}
    (hx : PointlessM x)
    (hf : ∀ a, PointlessM (f a)) :
    PointlessM (x >>= f) := by
  intro depth
  rw [bind_apply]
  split
  · next a below _ => exact hf a below
  · next err below heq =>
      exact pointless_error (hx depth err (by rw [heq]))

theorem pointlessM_pure
    (a : α) :
    PointlessM (pure a) :=
  fun _ => pointless_ok a

theorem pointlessM_lift
    {result : Except EvalError α}
    (hresult : Pointless result) :
    PointlessM (liftM result) := by
  intro depth
  cases result with
  | ok a => exact pointless_ok a
  | error err => exact hresult

theorem pointlessM_evalM
    (s : Scope)
    (limit : Nat)
    (e : Expr) :
    PointlessM (evalM s limit e) := by
  induction e with
  | integer v =>
      exact pointlessM_nested limit (pointlessM_pure _)
  | ident name =>
      apply pointlessM_nested
      apply pointlessM_bind (pointlessM_lift (s.pointless_named name))
      intro v
      exact pointlessM_pure _
  | neg e ih =>
      apply pointlessM_nested
      apply pointlessM_bind ih
      intro v
      exact pointlessM_pure _
  | binary op l r ihl ihr =>
      apply pointlessM_nested
      apply pointlessM_bind ihl
      intro a
      apply pointlessM_bind ihr
      intro b
      exact pointlessM_lift (op.pointless_apply a b)

end Evaluator

theorem pointless_eval
    (s : Scope)
    (limit : Nat)
    (e : Expr) :
    Pointless (e.eval s limit) :=
  pointlessM_evalM s limit e 0

end Expr

/-- The cell of a slot is read, or there is an error that points at no place. -/
theorem Slot.pointless_read
    (slot : Slot)
    (s : Scope) :
    Pointless (slot.read s) := by
  unfold Slot.read
  split
  · next r hr =>
      cases r with
      | current => exact pointless_ok _
      | relative offset => exact pointless_ok _
      | named name => exact s.pointless_named name
  · next err herr =>
      cases slot with
      | empty => cases herr
      | name word => cases herr
      | offset literal =>
          simp only [reference] at herr
          split at herr
          · cases herr
          · cases herr
            exact pointless_error rfl

namespace Template

theorem pointless_fill
    (form : Int64 → List Char)
    (s : Scope)
    (pieces : List Piece) :
    Pointless (fill form s pieces) := by
  induction pieces with
  | nil =>
      exact pointless_ok _
  | cons p ps ih =>
      cases p with
      | char c =>
          simp only [fill]
          split
          · exact pointless_ok _
          · next err herr => exact pointless_error (ih err herr)
      | slot slot =>
          simp only [fill]
          split
          · next err herr => exact pointless_error (slot.pointless_read s err herr)
          · split
            · exact pointless_ok _
            · next err herr => exact pointless_error (ih err herr)

end Template

/-- The result says that the text, with its references replaced, is no expression. -/
def SyntaxError (result : Except EvalError Value) : Prop :=
  ∃ text position expected, result = .error (.invalidExpression text position expected)

theorem Pointless.not_syntaxError
    {result : Except EvalError Value}
    (hresult : Pointless result) :
    ¬ SyntaxError result := by
  rintro ⟨text, position, expected, heq⟩
  exact hresult.ne_invalidExpression text position expected heq

theorem syntaxError_evaluate_of_fill
    {s : Scope}
    {text : String}
    {pieces : List Template.Piece}
    {cs : List Char}
    (maxDepth : Nat)
    (hscan : Template.scan text.toList = .ok pieces)
    (hfill : Template.fill Template.operand s pieces = .ok cs) :
    SyntaxError (evaluate s maxDepth text) ↔ ¬ Draft.Readable cs := by
  have hresolve : Template.resolve s text = .ok (String.ofList cs) := by
    rw [Template.resolve, Template.substitute_of_scan hscan, hfill]
    rfl
  rw [Template.evaluate_of_resolve maxDepth hresolve, Expr.parse_eq, String.toList_ofList]
  cases hparse : Draft.parse cs with
  | error stopped =>
      simp [SyntaxError, Draft.Readable, hparse, Except.bind]
  | ok draft =>
      have hreadable : Draft.Readable cs := ⟨draft, hparse⟩
      simp only [hreadable, not_true_eq_false, iff_false]
      cases hexpr : draft.toExpr maxDepth with
      | error err =>
          exact (pointless_error (draft.pointless_toExpr maxDepth err hexpr)).not_syntaxError
      | ok e =>
          exact (e.pointless_eval s maxDepth).not_syntaxError

/-- An evaluation ends in a syntax error exactly if the references of the text can be replaced and
what comes out is not read as an expression. -/
theorem syntaxError_evaluate_iff
    (s : Scope)
    (maxDepth : Nat)
    (text : String) :
    SyntaxError (evaluate s maxDepth text) ↔
      ∃ pieces cs,
        Template.scan text.toList = .ok pieces ∧
        Template.fill Template.operand s pieces = .ok cs ∧
        ¬ Draft.Readable cs := by
  constructor
  · intro hresult
    cases hscan : Template.scan text.toList with
    | error position =>
        rw [Template.evaluate_of_resolve_error maxDepth (Template.substitute_of_scan_error hscan)]
          at hresult
        simp [SyntaxError] at hresult
    | ok pieces =>
        cases hfill : Template.fill Template.operand s pieces with
        | error err =>
            have hnone := Template.pointless_fill _ s pieces err hfill
            have hresolve : Template.resolve s text = .error err := by
              rw [Template.resolve, Template.substitute_of_scan hscan, hfill]
              rfl
            rw [Template.evaluate_of_resolve_error maxDepth hresolve] at hresult
            exact absurd hresult (pointless_error hnone).not_syntaxError
        | ok cs =>
            have hreadable := (syntaxError_evaluate_of_fill maxDepth hscan hfill).mp hresult
            exact ⟨pieces, cs, rfl, hfill, hreadable⟩
  · rintro ⟨pieces, cs, hscan, hfill, hreadable⟩
    exact (syntaxError_evaluate_of_fill maxDepth hscan hfill).mpr hreadable

end GraphMachine
