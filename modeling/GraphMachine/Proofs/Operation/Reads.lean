import GraphMachine.Proofs.Expr.Limits
import GraphMachine.Proofs.Operation.Effect
import GraphMachine.Proofs.Outcome
import GraphMachine.Proofs.Reference.Layout

/-!
# What operations read

What an operation does depends on memory and mode only through the cells that its references read,
and through the references that the mode lets it write.  So two scopes in which all references read
the same give every operation the same effect.

This is proved for a weaker relation, too: some errors are excused, and where the first scope gives
such an error, the second one may give anything.  Operations read from left to right and stop at
the first error, hence an excused error of a part is the error of the whole.
-/

namespace GraphMachine

/-- Two results agree: they are the same, or the first one is an error that is excused. -/
def Agrees {α : Type} (excused : EvalError → Prop) (r r' : Except EvalError α) : Prop :=
  r' = r ∨ ∃ err, excused err ∧ r = .error err

section Results

variable {α β : Type}
variable {excused : EvalError → Prop}
variable {r r' : Except EvalError α}

theorem Agrees.refl
    (r : Except EvalError α) :
    Agrees excused r r :=
  .inl rfl

theorem agrees_error
    {err : EvalError}
    (herr : excused err)
    (r' : Except EvalError α) :
    Agrees excused (.error err) r' :=
  .inr ⟨err, herr, rfl⟩

/-- Without an excused error the results are the same. -/
theorem Agrees.eq
    (h : Agrees excused r r')
    (hr : ∀ err, excused err → r ≠ .error err) :
    r' = r := by
  rcases h with h | ⟨err, herr, h⟩
  · exact h
  · exact absurd h (hr err herr)

theorem Agrees.bind
    {f f' : α → Except EvalError β}
    (h : Agrees excused r r')
    (hf : ∀ a, Agrees excused (f a) (f' a)) :
    Agrees excused (r.bind f) (r'.bind f') := by
  rcases h with rfl | ⟨err, herr, rfl⟩
  · cases r' with
    | error err => exact .refl _
    | ok a => exact hf a
  · exact agrees_error herr _

theorem Agrees.map
    (h : Agrees excused r r')
    (f : α → β) :
    Agrees excused (r.map f) (r'.map f) := by
  rcases h with rfl | ⟨err, herr, rfl⟩
  · exact .refl _
  · exact agrees_error herr _

end Results

/-- All references can be read and written alike in two scopes, apart from excused errors. -/
structure Scope.Agrees (excused : EvalError → Prop) (s s' : Scope) : Prop where
  read : ∀ r : Reference, GraphMachine.Agrees excused (r.read s) (r.read s')
  permit : ∀ r : Reference, GraphMachine.Agrees excused (r.permit s.mode) (r.permit s'.mode)

namespace Expr

section Evaluator

variable {α β : Type}
variable {excused : EvalError → Prop}

/-- Two evaluations agree, wherever in the tree they stand. -/
def AgreesM (excused : EvalError → Prop) (x x' : EvalM α) : Prop :=
  ∀ depth, x' depth = x depth ∨ ∃ err below, excused err ∧ x depth = (.error err, below)

theorem AgreesM.refl
    (x : EvalM α) :
    AgreesM excused x x :=
  fun _ => .inl rfl

theorem agreesM_lift
    {r r' : Except EvalError α}
    (h : Agrees excused r r') :
    AgreesM excused (liftM r) (liftM r') := by
  intro depth
  rcases h with rfl | ⟨err, herr, rfl⟩
  · exact .inl rfl
  · exact .inr ⟨err, depth, herr, rfl⟩

theorem AgreesM.bind
    {x x' : EvalM α}
    {f f' : α → EvalM β}
    (h : AgreesM excused x x')
    (hf : ∀ a, AgreesM excused (f a) (f' a)) :
    AgreesM excused (x >>= f) (x' >>= f') := by
  intro depth
  rw [bind_apply, bind_apply]
  rcases h depth with h | ⟨err, below, herr, h⟩
  · rw [h]
    rcases x depth with ⟨_ | a, below⟩
    · exact .inl rfl
    · exact hf a below
  · rw [h]
    exact .inr ⟨err, below, herr, rfl⟩

/-- One level deeper, where the second evaluation may go deeper than the first if it is excused that
the first one does not. -/
theorem AgreesM.nested_of_le
    {x x' : EvalM α}
    {limit limit' : Nat}
    (h : AgreesM excused x x')
    (hle : limit ≤ limit')
    (hexcused : limit < limit' → excused (.depthExceeded limit)) :
    AgreesM excused (nested limit x) (nested limit' x') := by
  intro depth
  unfold Expr.nested
  by_cases hdepth : depth < limit
  · rw [if_pos hdepth, if_pos (Nat.lt_of_lt_of_le hdepth hle)]
    rcases h (depth + 1) with h | ⟨err, below, herr, h⟩
    · exact .inl (by rw [h])
    · exact .inr ⟨err, below - 1, herr, by rw [h]⟩
  · rw [if_neg hdepth]
    rcases Nat.eq_or_lt_of_le hle with rfl | hlt
    · exact .inl (if_neg hdepth)
    · exact .inr ⟨_, depth, hexcused hlt, rfl⟩

theorem AgreesM.nested
    {x x' : EvalM α}
    (h : AgreesM excused x x')
    (limit : Nat) :
    AgreesM excused (nested limit x) (nested limit x') :=
  h.nested_of_le (Nat.le_refl limit) fun hlt => absurd hlt (Nat.lt_irrefl limit)

end Evaluator

section Scopes

variable {excused : EvalError → Prop}
variable {s s' : Scope}

theorem agreesM_evalM
    (h : Scope.Agrees excused s s')
    (limit : Nat)
    (e : Expr) :
    AgreesM excused (evalM s limit e) (evalM s' limit e) := by
  induction e with
  | integer v =>
      exact .refl _
  | ident name =>
      have hread : Agrees excused (s.named name) (s'.named name) := h.read (.named name)
      exact ((agreesM_lift hread).bind fun _ => .refl _).nested limit
  | neg e ih =>
      exact (ih.bind fun _ => .refl _).nested limit
  | binary op l r ihl ihr =>
      exact (ihl.bind fun _ => ihr.bind fun _ => .refl _).nested limit

theorem agrees_eval
    (h : Scope.Agrees excused s s')
    (limit : Nat)
    (e : Expr) :
    Agrees excused (e.eval s limit) (e.eval s' limit) := by
  rcases agreesM_evalM h limit e 0 with heq | ⟨err, below, herr, heq⟩
  · exact .inl (congrArg Prod.fst heq)
  · exact .inr ⟨err, herr, congrArg Prod.fst heq⟩

end Scopes

end Expr

section Scopes

variable {excused : EvalError → Prop}
variable {s s' : Scope}

theorem Slot.agrees_read
    (h : Scope.Agrees excused s s')
    (slot : Slot) :
    Agrees excused (slot.read s) (slot.read s') := by
  unfold Slot.read
  cases slot.reference with
  | error err => exact .refl _
  | ok r => exact h.read r

namespace Template

theorem agrees_fill
    (h : Scope.Agrees excused s s')
    (form : Int64 → List Char)
    (ps : List Piece) :
    Agrees excused (fill form s ps) (fill form s' ps) := by
  induction ps with
  | nil =>
      exact .refl _
  | cons p ps ih =>
      cases p with
      | char c =>
          rw [fill_char, fill_char]
          exact ih.map _
      | slot slot =>
          rw [fill_slot, fill_slot]
          exact (slot.agrees_read h).bind fun v => ih.map _

theorem agrees_substitute
    (h : Scope.Agrees excused s s')
    (form : Int64 → List Char)
    (text : String) :
    Agrees excused (substitute form s text) (substitute form s' text) := by
  cases hscan : scan text.toList with
  | error position =>
      rw [substitute_of_scan_error hscan, substitute_of_scan_error hscan]
      exact .refl _
  | ok ps =>
      rw [substitute_of_scan hscan, substitute_of_scan hscan]
      exact (agrees_fill h form ps).map _

end Template

theorem evaluate_eq_bind
    (s : Scope)
    (maxDepth : Nat)
    (text : String) :
    evaluate s maxDepth text =
      (Template.resolve s text).bind fun resolved =>
        (Expr.parse resolved maxDepth).bind fun e => e.eval s maxDepth := by
  rfl

/-- The value of a text depends on the scope only through the references that are read. -/
theorem agrees_evaluate
    (h : Scope.Agrees excused s s')
    (maxDepth : Nat)
    (text : String) :
    Agrees excused (evaluate s maxDepth text) (evaluate s' maxDepth text) := by
  rw [evaluate_eq_bind, evaluate_eq_bind]
  refine (Template.agrees_substitute h _ text).bind fun resolved => ?_
  exact (Agrees.refl _).bind fun e => e.agrees_eval h maxDepth

theorem Effect.agrees_storing
    (h : Scope.Agrees excused s s')
    (target : Reference)
    (value : Int64) :
    Agrees excused (storing s target value) (storing s' target value) :=
  (h.permit target).map _

/-- The effect stores to no cell that the mode forbids. -/
def Effect.Permitted (mode : AddressingMode) : Effect → Prop
  | store target _ => target.permit mode = .ok ()
  | _ => True

theorem Effect.permitted_of_storing
    {target : Reference}
    {value : Int64}
    {eff : Effect}
    (h : storing s target value = .ok eff) :
    eff.Permitted s.mode := by
  obtain ⟨_, hpermit, rfl⟩ := map_eq_ok_iff.mp h
  exact hpermit

namespace Operation

theorem agrees_line
    (h : Scope.Agrees excused s s')
    (maxDepth : Nat)
    (printed : Printed) :
    Agrees excused (line s maxDepth printed) (line s' maxDepth printed) := by
  cases printed with
  | template text =>
      exact Template.agrees_substitute h _ text
  | value expression =>
      exact (agrees_evaluate h maxDepth expression).map _

/-- What an operation does depends on the scope only through the references that it reads and
writes. -/
theorem agrees_effect
    (h : Scope.Agrees excused s s')
    (maxDepth : Nat)
    (op : Operation) :
    Agrees excused (op.effect s maxDepth) (op.effect s' maxDepth) := by
  cases op with
  | set target expression =>
      exact (agrees_evaluate h maxDepth expression).bind fun v => Effect.agrees_storing h target _
  | increment target =>
      exact (h.read target).bind fun v => Effect.agrees_storing h target _
  | decrement target =>
      exact (h.read target).bind fun v => Effect.agrees_storing h target _
  | output printed =>
      exact (agrees_line h maxDepth printed).map _
  | check condition =>
      cases condition with
      | none => exact (h.read .current).map fun v => Effect.answer (v != 0)
      | some condition => exact (agrees_evaluate h maxDepth condition).map _
  | shift delta =>
      exact .refl _

/-- An operation stores to no cell that the mode forbids. -/
theorem permitted_of_effect
    {op : Operation}
    {maxDepth : Nat}
    {eff : Effect}
    (h : op.effect s maxDepth = .ok eff) :
    eff.Permitted s.mode := by
  cases op with
  | set target expression =>
      obtain ⟨v, -, hstore⟩ := bind_eq_ok_iff.mp h
      exact Effect.permitted_of_storing hstore
  | increment target =>
      obtain ⟨v, -, hstore⟩ := bind_eq_ok_iff.mp h
      exact Effect.permitted_of_storing hstore
  | decrement target =>
      obtain ⟨v, -, hstore⟩ := bind_eq_ok_iff.mp h
      exact Effect.permitted_of_storing hstore
  | output printed =>
      obtain ⟨line, -, rfl⟩ := map_eq_ok_iff.mp h
      trivial
  | check condition =>
      cases condition with
      | none =>
          cases h
          trivial
      | some condition =>
          obtain ⟨v, -, rfl⟩ := map_eq_ok_iff.mp h
          trivial
  | shift delta =>
      cases h
      trivial

end Operation

end Scopes

end GraphMachine
