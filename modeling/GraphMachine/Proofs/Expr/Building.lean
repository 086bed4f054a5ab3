import GraphMachine.Expr.Builder
import GraphMachine.Proofs.Expr.Reading

/-!
# Rows and drafts

The automaton reads the tokens of a row of operands and comes to a draft.  The expression that the
builder makes of the row is the expression of that draft:

* the calls that wait in the builder are the frames of the automaton, up to the last parenthesis;
* operands inside `k` parentheses are built with the counter at `2 * k + 1`, so the builder goes
  over its limit exactly at the leaves that are nested too deeply.
-/

namespace GraphMachine

mutual

def Primary.tokens : Primary → List Token
  | .integer digits => [.integer digits]
  | .ident name => [.ident name]
  | .grouped inner => .opening :: (inner.tokens ++ [.closing])

def Pairs.tokens : Pairs → List Token
  | .last minuses operand =>
      List.replicate minuses (.operator (.arith .sub)) ++ operand.tokens
  | .more minuses operand op rest =>
      List.replicate minuses (.operator (.arith .sub)) ++ operand.tokens ++
        .operator op :: rest.tokens

end

namespace Builder

/-- A call that waits with an operand that was nested too deeply. -/
def Frame.Exceeds (maxDepth : Nat) : Frame → Prop
  | minus => True
  | left operand _ => operand = .error (.depthExceeded maxDepth)

section TooDeep

variable {maxDepth depth : Nat}

theorem operand_of_le
    (h : maxDepth ≤ depth)
    (p : Primary) :
    operand maxDepth depth p = .error (.depthExceeded maxDepth) := by
  cases p <;> simp [operand, within, h]

theorem unwind_of_exceeds
    (power : Nat)
    {frames : List Frame}
    (hframes : ∀ f ∈ frames, f.Exceeds maxDepth) :
    (unwind power (.error (.depthExceeded maxDepth)) frames).1 =
        .error (.depthExceeded maxDepth) ∧
      ∀ f ∈ (unwind power (.error (.depthExceeded maxDepth)) frames).2, f.Exceeds maxDepth := by
  induction frames with
  | nil =>
      exact ⟨rfl, hframes⟩
  | cons f fs ih =>
      obtain ⟨hf, hfs⟩ := List.forall_mem_cons.mp hframes
      simp only [unwind]
      split
      · exact ⟨rfl, hframes⟩
      · have hresume :
            f.resume (.error (.depthExceeded maxDepth)) = .error (.depthExceeded maxDepth) := by
          cases f with
          | minus => rfl
          | left l op =>
              have hl : l = .error (.depthExceeded maxDepth) := hf
              rw [hl]
              rfl
        rw [hresume]
        exact ih hfs

/-- At the limit, no row can be built. -/
theorem climb_of_le
    (h : maxDepth ≤ depth) :
    ∀ (pairs : Pairs) {frames : List Frame}, (∀ f ∈ frames, f.Exceeds maxDepth) →
      climb maxDepth depth frames pairs = .error (.depthExceeded maxDepth)
  | .last minuses p, frames, hframes => by
      have hwaiting : ∀ f ∈ List.replicate minuses Frame.minus ++ frames, f.Exceeds maxDepth :=
        List.forall_mem_append.mpr
          ⟨fun f hf => (List.eq_of_mem_replicate hf) ▸ trivial, hframes⟩
      rw [climb, operand_of_le h]
      exact (unwind_of_exceeds 0 hwaiting).1
  | .more minuses p op rest, frames, hframes => by
      have hwaiting : ∀ f ∈ List.replicate minuses Frame.minus ++ frames, f.Exceeds maxDepth :=
        List.forall_mem_append.mpr
          ⟨fun f hf => (List.eq_of_mem_replicate hf) ▸ trivial, hframes⟩
      obtain ⟨hanswer, hleft⟩ := unwind_of_exceeds (10 * op.level) hwaiting
      rw [climb, operand_of_le h]
      exact climb_of_le h rest (List.forall_mem_cons.mpr ⟨hanswer, hleft⟩)

/-- The check at a row only anticipates the checks at its operands. -/
theorem within_climb
    (maxDepth : Nat)
    {depth inner : Nat}
    (hle : depth ≤ inner)
    (pairs : Pairs) :
    within maxDepth depth (climb maxDepth inner [] pairs) = climb maxDepth inner [] pairs := by
  unfold within
  split
  · next hmax =>
      rw [climb_of_le (Nat.le_trans hmax hle) pairs (by simp)]
  · rfl

end TooDeep
end Builder

namespace Draft

open Builder (Answer)

/-- Puts minus signs before a draft. -/
def negated : Nat → Draft → Draft
  | 0, t => t
  | n + 1, t => negated n (.neg t)

def lefts (waiting : List (Draft × Operator)) : List Frame :=
  waiting.map fun (l, op) => .left l op

/-- The calls of the builder that wait with the same operands. -/
def calls (maxDepth : Nat) (waiting : List (Draft × Operator)) : List Builder.Frame :=
  waiting.map fun (l, op) => .left (l.toExpr maxDepth) op

section Frames

variable {fs : List Frame}

theorem toExpr_neg
    (maxDepth : Nat)
    (t : Draft) :
    (neg t).toExpr maxDepth = Builder.Frame.minus.resume (t.toExpr maxDepth) := by
  rw [toExpr]
  cases t.toExpr maxDepth <;> rfl

theorem toExpr_binary
    (maxDepth : Nat)
    (op : Operator)
    (l r : Draft) :
    (binary op l r).toExpr maxDepth =
      (Builder.Frame.left (l.toExpr maxDepth) op).resume (r.toExpr maxDepth) := by
  rw [toExpr]
  cases l.toExpr maxDepth with
  | error err => rfl
  | ok left => cases r.toExpr maxDepth <;> rfl

theorem run_minuses
    (n : Nat)
    (fs : List Frame)
    (ts : List Token) :
    (State.wanting fs).run (List.replicate n (.operator (.arith .sub)) ++ ts) =
      (State.wanting (List.replicate n .minus ++ fs)).run ts := by
  induction n generalizing fs with
  | zero =>
      rfl
  | succ n ih =>
      have hframes :
          List.replicate (n + 1) Frame.minus ++ fs =
            List.replicate n Frame.minus ++ .minus :: fs := by
        rw [List.replicate_succ', List.append_assoc]
        rfl
      rw [hframes, ← ih]
      rfl

theorem complete_minuses
    (n : Nat)
    (t : Draft)
    (fs : List Frame) :
    complete t (List.replicate n .minus ++ fs) = complete (negated n t) fs := by
  induction n generalizing t with
  | zero => rfl
  | succ n ih => exact ih (.neg t)

theorem unwind_minuses
    (maxDepth n : Nat)
    {power : Nat}
    (hpower : power < 10 * minusLevel)
    (t : Draft)
    (frames : List Builder.Frame) :
    Builder.unwind power (t.toExpr maxDepth) (List.replicate n .minus ++ frames) =
      Builder.unwind power ((negated n t).toExpr maxDepth) frames := by
  induction n generalizing t with
  | zero =>
      rfl
  | succ n ih =>
      have hwaits : ¬ Builder.Frame.minus.power < power := by
        simp only [Builder.Frame.power, minusLevel] at hpower ⊢
        omega
      rw [List.replicate_succ, List.cons_append, Builder.unwind, if_neg hwaits, ← toExpr_neg]
      exact ih (.neg t)

theorem complete_lefts
    (hfs : atStart fs = true)
    (t : Draft)
    (waiting : List (Draft × Operator)) :
    complete t (lefts waiting ++ fs) = .holding t (lefts waiting ++ fs) := by
  cases waiting with
  | cons w waiting => rfl
  | nil =>
      cases fs with
      | nil => rfl
      | cons f fs =>
          cases f with
          | group => rfl
          | minus => cases hfs
          | left l op => cases hfs

/-- An operator takes the operands of the same calls in the automaton and in the builder. -/
theorem exists_reduce_lefts
    (hfs : atStart fs = true)
    (level : Nat)
    (t : Draft)
    (waiting : List (Draft × Operator)) :
    ∃ t' waiting',
      reduce level t (lefts waiting ++ fs) = (t', lefts waiting' ++ fs) ∧
      (level = 0 → waiting' = []) ∧
      ∀ maxDepth,
        Builder.unwind (10 * level) (t.toExpr maxDepth) (calls maxDepth waiting) =
          (t'.toExpr maxDepth, calls maxDepth waiting') := by
  induction waiting generalizing t with
  | nil =>
      refine ⟨t, [], ?_, fun _ => rfl, fun _ => rfl⟩
      cases fs with
      | nil => rfl
      | cons f fs =>
          cases f with
          | group => rfl
          | minus => cases hfs
          | left l op => cases hfs
  | cons w waiting ih =>
      obtain ⟨l, op⟩ := w
      by_cases hle : level ≤ op.level
      · obtain ⟨t', waiting', hreduce, hzero, hunwind⟩ := ih (.binary op l t)
        refine ⟨t', waiting', ?_, hzero, fun maxDepth => ?_⟩
        · rw [← hreduce]
          simp [lefts, reduce, hle]
        · have hwaits : ¬ 10 * op.level < 10 * level := by omega
          rw [← hunwind maxDepth, toExpr_binary]
          simp [calls, Builder.unwind, Builder.Frame.power, hwaits]
      · refine ⟨t, (l, op) :: waiting, ?_, fun h => absurd h (by omega), fun maxDepth => ?_⟩
        · simp [lefts, reduce, hle]
        · have hwaits : 10 * op.level < 10 * level := by omega
          simp [calls, Builder.unwind, Builder.Frame.power, hwaits]

theorem nesting_minuses
    (n : Nat)
    (fs : List Frame) :
    nesting (List.replicate n .minus ++ fs) = nesting fs := by
  induction n with
  | zero => rfl
  | succ n ih => exact ih

theorem nesting_lefts
    (waiting : List (Draft × Operator))
    (fs : List Frame) :
    nesting (lefts waiting ++ fs) = nesting fs := by
  induction waiting with
  | nil => rfl
  | cons w waiting ih => exact ih

end Frames

theorem tooDeep_iff
    (maxDepth nesting : Nat) :
    tooDeep maxDepth nesting = true ↔ maxDepth ≤ 2 * nesting + 1 := by
  simp [tooDeep, Nat.lt_succ_iff]

mutual

/-- The automaton reads an operand as a primary, and builds the same leaf or group. -/
theorem exists_run_primary
    (fs : List Frame) :
    ∀ p : Primary, ∃ t,
      (State.wanting fs).run p.tokens = .ok (complete t fs) ∧
      ∀ maxDepth, t.toExpr maxDepth = Builder.operand maxDepth (2 * nesting fs + 1) p
  | .integer digits => by
      refine ⟨.integer digits (nesting fs), rfl, fun maxDepth => ?_⟩
      change (if tooDeep maxDepth (nesting fs) then _ else Builder.literal digits) =
        Builder.within maxDepth (2 * nesting fs + 1) (Builder.literal digits)
      simp only [tooDeep_iff, Builder.within]
  | .ident name => by
      refine ⟨.ident name (nesting fs), rfl, fun maxDepth => ?_⟩
      simp only [toExpr, tooDeep_iff, Builder.operand, Builder.within]
  | .grouped inner => by
      obtain ⟨e, gs, t, hrun, hreduce, hexpr⟩ := exists_run_pairs (.group :: fs) rfl inner []
      refine ⟨t, ?_, fun maxDepth => ?_⟩
      · have hclosing : (State.holding e gs).step .closing = .ok (complete t fs) := by
          simp only [State.step, hreduce]
        have hopened :
            (State.wanting fs).run (Primary.grouped inner).tokens =
              (State.wanting (.group :: fs)).run (inner.tokens ++ [.closing]) := rfl
        rw [hopened, State.run_append]
        rw [show (State.wanting (.group :: fs)).run inner.tokens = _ from hrun]
        exact State.run_cons_of_step hclosing []
      · rw [hexpr maxDepth, Builder.operand, Builder.within_climb maxDepth (by omega),
          Builder.within_climb maxDepth (by omega)]
        rfl

/-- The automaton reads a row as an operand with the draft that the builder turns into an
expression. -/
theorem exists_run_pairs
    (fs : List Frame)
    (hfs : atStart fs = true) :
    ∀ (pairs : Pairs) (waiting : List (Draft × Operator)), ∃ e gs t,
      (State.wanting (lefts waiting ++ fs)).run pairs.tokens = .ok (.holding e gs) ∧
      reduce 0 e gs = (t, fs) ∧
      ∀ maxDepth,
        t.toExpr maxDepth =
          Builder.climb maxDepth (2 * nesting fs + 1) (calls maxDepth waiting) pairs
  | .last minuses p, waiting => by
      obtain ⟨t, hrun, hexpr⟩ :=
        exists_run_primary (List.replicate minuses .minus ++ (lefts waiting ++ fs)) p
      rw [complete_minuses, complete_lefts hfs] at hrun
      simp only [nesting_minuses, nesting_lefts] at hexpr
      obtain ⟨t', waiting', hreduce, hzero, hunwind⟩ :=
        exists_reduce_lefts hfs 0 (negated minuses t) waiting
      refine ⟨negated minuses t, lefts waiting ++ fs, t', ?_, ?_, fun maxDepth => ?_⟩
      · rw [Pairs.tokens, run_minuses, hrun]
      · rw [hreduce, hzero rfl]
        rfl
      · rw [Builder.climb, ← hexpr, unwind_minuses maxDepth minuses (by decide), hunwind maxDepth]
  | .more minuses p op rest, waiting => by
      obtain ⟨t, hrun, hexpr⟩ :=
        exists_run_primary (List.replicate minuses .minus ++ (lefts waiting ++ fs)) p
      rw [complete_minuses, complete_lefts hfs] at hrun
      simp only [nesting_minuses, nesting_lefts] at hexpr
      obtain ⟨l, waiting', hreduce, -, hunwind⟩ :=
        exists_reduce_lefts hfs op.level (negated minuses t) waiting
      obtain ⟨e, gs, t', hrest, hfinal, hclimb⟩ :=
        exists_run_pairs fs hfs rest ((l, op) :: waiting')
      have hstep :
          (State.holding (negated minuses t) (lefts waiting ++ fs)).step (.operator op) =
            .ok (.wanting (lefts ((l, op) :: waiting') ++ fs)) := by
        simp only [State.step, hreduce]
        rfl
      refine ⟨e, gs, t', ?_, hfinal, fun maxDepth => ?_⟩
      · rw [Pairs.tokens, List.append_assoc, run_minuses, State.run_append, hrun]
        exact (State.run_cons_of_step hstep _).trans hrest
      · have hlevel := level_lt_five op
        rw [hclimb maxDepth, Builder.climb, ← hexpr,
          unwind_minuses maxDepth minuses (by simp only [minusLevel]; omega), hunwind maxDepth]
        rfl

end

end Draft
end GraphMachine
