import GraphMachine.Proofs.Expr.Acceptance

/-!
# Cuts before a token

A text is cut in two at a place where a token starts.  Which tokens stand before the place depends
on what comes after it, but only on the next character, since no token looks further ahead.

An error of the reading automaton is such a place: the tokens before it were read, and the token
that starts there, or the end of the text, has no transition.
-/

namespace GraphMachine

open Text

namespace Token

/-- `Cuts p ts rest` says that in the text `p ++ rest` the first part consists of the tokens `ts`
and of gaps, so that a token or a gap starts with the second part. -/
inductive Cuts : List Char → List Token → List Char → Prop
  | nil
      {rest : List Char} :
      Cuts [] [] rest
  | gap
      {c : Char}
      {p rest : List Char}
      {ts : List Token}
      (hc : isGap c = true)
      (h : Cuts p ts rest) :
      Cuts (c :: p) ts rest
  | token
      {c : Char}
      {w p rest : List Char}
      {found : Token}
      {ts : List Token}
      (hc : isGap c = false)
      (hfound : startingAt c (w ++ (p ++ rest)) = (found, w.length))
      (h : Cuts p ts rest) :
      Cuts (c :: (w ++ p)) (found :: ts) rest

section Lookahead

variable {c d : Char}

/-- A run that ends inside a text, or with it, does not depend on what follows the next
character. -/
theorem takeWhile_of_length_le
    {p : Char → Bool}
    {u rest : List Char}
    (h : ((u ++ d :: rest).takeWhile p).length ≤ u.length)
    (rest' : List Char) :
    (u ++ d :: rest').takeWhile p = (u ++ d :: rest).takeWhile p := by
  rw [List.takeWhile_append] at h
  rw [List.takeWhile_append, List.takeWhile_append]
  split
  · next hall =>
      rw [if_pos hall, List.length_append] at h
      have hd : p d = false := by
        cases hp : p d with
        | false => rfl
        | true =>
            rw [List.takeWhile_cons_of_pos hp, List.length_cons] at h
            omega
      simp [hd]
  · rfl

/-- Symbols look at the next character alone. -/
theorem symbolAt_of_head
    {cs cs' : List Char}
    (h : cs.head? = cs'.head?) :
    symbolAt c cs = symbolAt c cs' := by
  cases cs with
  | nil =>
      cases cs' with
      | nil => rfl
      | cons e cs' => cases h
  | cons e cs =>
      cases cs' with
      | nil => cases h
      | cons e' cs' =>
          cases h
          unfold symbolAt
          split <;> simp_all

/-- A token that ends before the next character of a text is found whatever follows that
character. -/
theorem startingAt_of_taken_le
    {u rest : List Char}
    (h : (startingAt c (u ++ d :: rest)).2 ≤ u.length)
    (rest' : List Char) :
    startingAt c (u ++ d :: rest') = startingAt c (u ++ d :: rest) := by
  unfold startingAt at h ⊢
  split
  · next hdigit =>
      rw [if_pos hdigit] at h
      rw [takeWhile_of_length_le h rest']
  · next hdigit =>
      rw [if_neg hdigit] at h
      split
      · next hstart =>
          rw [if_pos hstart] at h
          rw [takeWhile_of_length_le h rest']
      · apply symbolAt_of_head
        cases u <;> rfl

end Lookahead

section Cuts

variable {p rest : List Char}
variable {ts : List Token}

theorem Cuts.tokens_append
    (h : Cuts p ts rest) :
    tokens (p ++ rest) = ts ++ tokens rest := by
  induction h with
  | nil =>
      rfl
  | gap hc _ ih =>
      rw [List.cons_append, tokens_gap hc, ih]
  | token hc hfound _ ih =>
      rw [List.cons_append, List.append_assoc, tokens_cons_append hc hfound, ih]
      rfl

/-- A cut depends on the next character alone. -/
theorem Cuts.exchange
    {c : Char}
    (h : Cuts p ts (c :: rest))
    (rest' : List Char) :
    Cuts p ts (c :: rest') := by
  generalize hwhole : c :: rest = whole at h
  induction h with
  | nil =>
      exact .nil
  | gap hc _ ih =>
      exact .gap hc (ih hwhole)
  | @token d w q whole found ts hc hfound _ ih =>
      subst hwhole
      refine .token hc ?_ (ih rfl)
      rw [← List.append_assoc] at hfound ⊢
      have htaken : (startingAt d (w ++ q ++ c :: rest)).2 ≤ (w ++ q).length := by
        rw [hfound, List.length_append]
        omega
      rw [startingAt_of_taken_le htaken rest', hfound]

end Cuts

end Token

namespace Draft
namespace State

open Token

/-- What comes next has no transition: the end of the text, or the token that starts here. -/
def Blocked (s : State) (expected : List Expectation) : List Char → Prop
  | [] => s.finish = .error expected
  | c :: cs => isGap c = false ∧ s.step (startingAt c cs).1 = .error expected

/-- Reading fails at a cut whose tokens were read and behind which there is no transition. -/
theorem exists_cut_of_read
    {stop start position : Nat}
    {s : State}
    {cs : List Char}
    {expected : List Expectation}
    (hstop : stop = start + byteLength cs)
    (hread : s.read stop (lexFrom start 0 cs) = .error (position, expected)) :
    ∃ p ts rest last,
      cs = p ++ rest ∧
      position = start + byteLength p ∧
      Cuts p ts rest ∧
      s.run ts = .ok last ∧
      last.Blocked expected rest := by
  -- The induction is on the length of the text, because a token takes several characters.
  induction hlength : cs.length using Nat.strong_induction_on generalizing cs s start with
  | _ length ih =>
      cases cs with
      | nil =>
          refine ⟨[], [], [], s, rfl, ?_⟩
          simp only [lexFrom, read] at hread
          split at hread
          · cases hread
          · next expected' hfinish =>
              cases hread
              exact ⟨hstop, .nil, rfl, hfinish⟩
      | cons c cs =>
          rw [byteLength_cons] at hstop
          rw [List.length_cons] at hlength
          cases hgap : isGap c with
          | true =>
              simp only [lexFrom, hgap, if_true] at hread
              obtain ⟨p, ts, rest, last, rfl, hposition, hcuts, hrun, hblocked⟩ :=
                ih cs.length (by omega) (by omega) hread rfl
              refine ⟨c :: p, ts, rest, last, rfl, ?_, .gap hgap hcuts, hrun, hblocked⟩
              rw [byteLength_cons]
              omega
          | false =>
              simp only [lexFrom, hgap, Bool.false_eq_true, if_false, read] at hread
              split at hread
              · next next hstep =>
                  -- The token takes `w`; what it leaves is read from the next state.
                  have hle := taken_le_length c cs
                  obtain ⟨w, left, rfl, hw⟩ :
                      ∃ w left, cs = w ++ left ∧ w.length = (startingAt c cs).2 :=
                    ⟨_, _, (List.take_append_drop _ cs).symm, List.length_take_of_le hle⟩
                  rw [← hw, lexFrom_length_append] at hread
                  rw [List.length_append] at hlength
                  rw [byteLength_append] at hstop
                  obtain ⟨p, ts, rest, last, rfl, hposition, hcuts, hrun, hblocked⟩ :=
                    ih left.length (by omega) (by omega) hread rfl
                  refine ⟨c :: (w ++ p), (startingAt c (w ++ (p ++ rest))).1 :: ts, rest, last,
                    by simp, ?_, .token hgap (Prod.ext rfl hw.symm) hcuts, ?_, hblocked⟩
                  · rw [byteLength_cons, byteLength_append]
                    omega
                  · rw [run_cons_of_step hstep, hrun]
              · next expected' hstep =>
                  cases hread
                  exact ⟨[], [], c :: cs, s, rfl, rfl, .nil, rfl, hgap, hstep⟩

/-- The state at a cut describes the text before it. -/
theorem Describes.cuts
    {s last : State}
    {q p rest : List Char}
    {ts : List Token}
    (hs : s.Describes q)
    (hcuts : Cuts p ts rest)
    (hrun : s.run ts = .ok last) :
    last.Describes (q ++ p) := by
  induction hcuts generalizing s q with
  | nil =>
      cases hrun
      simpa using hs
  | @gap c p rest ts hc _ ih =>
      have htail := ih (hs.gap hc) hrun
      simpa using htail
  | @token c w p rest found ts hc hfound _ ih =>
      have hspells : Token.Spells (c :: w) found := by
        have hspells := spells_startingAt c (w ++ (p ++ rest))
        rw [hfound, List.take_left] at hspells
        exact hspells
      cases hstep : s.step found with
      | error expected =>
          simp [run, hstep] at hrun
      | ok next =>
          rw [run_cons_of_step hstep] at hrun
          have htail := ih (describes_step hs hspells hstep) hrun
          simpa using htail

end State
end Draft
end GraphMachine
