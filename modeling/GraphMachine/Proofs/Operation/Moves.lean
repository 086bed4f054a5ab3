import GraphMachine.Proofs.Operation.Calls

/-!
# Moves of the pointer

The argument of a move is white space and arrows, which may be quoted as a whole.  It moves the
pointer by the arrows to the right less the arrows to the left, wherever they stand.  Since neither
white space nor quotes are arrows, it makes no difference whether arrows are counted before or after
the argument is trimmed and unquoted.
-/

namespace GraphMachine

open Text

namespace Operation

def isMove (c : Char) : Bool :=
  c == '>' || c == '<' || isWhite c

/-- The arrows to the right less the arrows to the left. -/
def netMoves (cs : List Char) : Int :=
  cs.count '>' - cs.count '<'

/-- The arrows of an argument: what is left without the white space and the quotes around it. -/
def arrows (argument : List Char) : List Char :=
  (unquote? (trim argument)).getD (trim argument)

section Counting

variable {cs w : List Char}

@[simp] theorem netMoves_append
    (u v : List Char) :
    netMoves (u ++ v) = netMoves u + netMoves v := by
  simp only [netMoves, List.count_append]
  omega

theorem netMoves_cons
    (c : Char)
    (cs : List Char) :
    netMoves (c :: cs) = netMoves [c] + netMoves cs :=
  netMoves_append [c] cs

/-- A text without arrows moves nothing. -/
theorem netMoves_eq_zero
    (hright : '>' ∉ cs)
    (hleft : '<' ∉ cs) :
    netMoves cs = 0 := by
  simp [netMoves, List.count_eq_zero.mpr hright, List.count_eq_zero.mpr hleft]

theorem netMoves_of_isWhite
    (h : ∀ c ∈ cs, isWhite c = true) :
    netMoves cs = 0 := by
  apply netMoves_eq_zero
  · exact fun hmem => absurd (h _ hmem) (by decide)
  · exact fun hmem => absurd (h _ hmem) (by decide)

theorem netMoves_trim
    (cs : List Char) :
    netMoves (trim cs) = netMoves cs := by
  obtain ⟨a, b, ha, hb, heq, -⟩ : Trims cs (trim cs) := trims_iff.mpr rfl
  rw [heq, netMoves_append, netMoves_append, netMoves_of_isWhite ha, netMoves_of_isWhite hb, ← heq]
  omega

theorem netMoves_of_quotes
    (h : Quotes w cs) :
    netMoves cs = netMoves w := by
  obtain ⟨q, hq, rfl⟩ := h
  have hquote : netMoves [q] = 0 := by
    rcases hq with rfl | rfl <;> rfl
  rw [netMoves_cons, netMoves_append, hquote]
  omega

/-- Trimming and unquoting takes no arrow away. -/
theorem netMoves_arrows
    (argument : List Char) :
    netMoves (arrows argument) = netMoves argument := by
  unfold arrows
  rw [← netMoves_trim argument]
  cases hquotes : unquote? (trim argument) with
  | none => rfl
  | some w => exact (netMoves_of_quotes (quotes_iff.mpr hquotes)).symm

/-- All arrows of an argument stand in it. -/
theorem mem_of_mem_arrows
    {argument : List Char}
    {c : Char}
    (h : c ∈ arrows argument) :
    c ∈ argument := by
  apply mem_of_mem_trim
  unfold arrows at h
  cases hquotes : unquote? (trim argument) with
  | none =>
      simpa [hquotes] using h
  | some w =>
      obtain ⟨q, -, hq⟩ := quotes_iff.mpr hquotes
      rw [hquotes, Option.getD_some] at h
      rw [hq]
      simp [h]

end Counting

section Reading

/-- The word that the net moves give is added, unless there is a character that is no move. -/
theorem sumMoves_eq
    (delta : Int64)
    (cs : List Char) :
    sumMoves delta cs =
      (cs.find? fun c => !isMove c).elim (.ok (delta + Int64.ofInt (netMoves cs)))
        fun c => .error (.invalidArgument (.notAMove c)) := by
  fun_induction sumMoves delta cs with
  | case1 delta =>
      simp [netMoves]
  | case2 delta cs ih =>
      have hnet : netMoves ('>' :: cs) = 1 + netMoves cs := netMoves_cons _ _
      rw [ih, hnet, Int64.ofInt_add, ← Int64.add_assoc]
      simp [isMove]
  | case3 delta cs hright ih =>
      have hnet : netMoves ('<' :: cs) = -1 + netMoves cs := netMoves_cons _ _
      rw [ih, hnet, Int64.ofInt_add, ← Int64.add_assoc, Int64.sub_eq_add_neg]
      simp [isMove]
  | case4 delta c cs hright hleft hwhite ih =>
      have hnone : netMoves [c] = 0 := netMoves_of_isWhite (by simpa using hwhite)
      rw [ih, netMoves_cons, hnone, Int.zero_add]
      simp [isMove, hwhite]
  | case5 delta c cs hright hleft hwhite =>
      simp [isMove, hright, hleft, hwhite]

theorem parseShift_eq
    (argument : List Char) :
    parseShift argument =
      ((arrows argument).find? fun c => !isMove c).elim (.ok (Int64.ofInt (netMoves argument)))
        fun c => .error (.invalidArgument (.notAMove c)) := by
  have hsum := sumMoves_eq 0 (arrows argument)
  rw [netMoves_arrows, Int64.zero_add] at hsum
  exact hsum

/-- A call of a move is read if its arrows are moves, and else the first one that is none is
named. -/
theorem ofCall_shift
    (argument : List Char) :
    ofCall .shift argument =
      ((arrows argument).find? fun c => !isMove c).elim
        (.ok (.shift (Int64.ofInt (netMoves argument))))
        fun c => .error (.invalidArgument (.notAMove c)) := by
  simp only [ofCall, parseShift_eq]
  cases (arrows argument).find? fun c => !isMove c with
  | none => rfl
  | some c => rfl

theorem ofCall_shift_eq_ok_iff
    {argument : List Char}
    {op : Operation} :
    ofCall .shift argument = .ok op ↔
      op = .shift (Int64.ofInt (netMoves argument)) ∧
      ∀ c ∈ arrows argument, isMove c = true := by
  rw [ofCall_shift]
  cases hfind : (arrows argument).find? fun c => !isMove c with
  | none =>
      have hall : ∀ c ∈ arrows argument, isMove c = true := by
        simpa using hfind
      rw [Option.elim_none, Except.ok.injEq, and_iff_left hall]
      exact eq_comm
  | some c =>
      have hc : isMove c = false := by
        simpa using List.find?_some hfind
      simp only [Option.elim_some, reduceCtorEq, false_iff, not_and]
      intro _ hall
      rw [hall c (List.mem_of_find?_eq_some hfind)] at hc
      cases hc

theorem ofCall_shift_eq_error_iff
    {argument : List Char}
    {err : OperationError} :
    ofCall .shift argument = .error err ↔
      ∃ before c behind,
        arrows argument = before ++ c :: behind ∧
        (∀ d ∈ before, isMove d = true) ∧
        isMove c = false ∧
        err = .invalidArgument (.notAMove c) := by
  rw [ofCall_shift]
  constructor
  · intro h
    cases hfind : (arrows argument).find? fun c => !isMove c with
    | none =>
        rw [hfind] at h
        cases h
    | some c =>
        rw [hfind] at h
        cases h
        obtain ⟨hc, before, behind, heq, hbefore⟩ := List.find?_eq_some_iff_append.mp hfind
        exact ⟨before, c, behind, heq, by simpa using hbefore, by simpa using hc, rfl⟩
  · rintro ⟨before, c, behind, heq, hbefore, hc, rfl⟩
    have hfind : (arrows argument).find? (fun c => !isMove c) = some c :=
      List.find?_eq_some_iff_append.mpr
        ⟨by simpa using hc, before, behind, heq, by simpa using hbefore⟩
    rw [hfind]
    rfl

/-- A move is the net count of the arrows in its argument. -/
theorem delta_of_parse
    {text : String}
    {delta : Int64}
    (h : parse text = .ok (.shift delta)) :
    delta = Int64.ofInt (netMoves (argumentOf text)) := by
  cases (ofCall_shift_eq_ok_iff.mp (ofCall_of_parse h)).1
  rfl

end Reading

end Operation
end GraphMachine
