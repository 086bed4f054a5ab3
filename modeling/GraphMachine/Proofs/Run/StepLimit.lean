import GraphMachine.Proofs.Run.Steps

/-!
# The step limit

Runs that differ in the limit alone agree for as long as both limits allow.  So a limit either
leaves a run as it is, or cuts it after that many nodes.

The limit is tested before the next node is looked up.  Therefore a run that has executed exactly
as many nodes as it may, and would end where no node can follow, still exceeds its limit.
-/

namespace GraphMachine
namespace Run

def Options.withLimit (o : Options) (limit : Option Nat) : Options :=
  { o with maxSteps := limit }

namespace Machine

theorem exhausted?_eq_none
    {o : Options}
    {steps : Nat}
    (h : ∀ limit ∈ o.maxSteps, steps < limit) :
    exhausted? o steps = none := by
  apply Option.filter_eq_none_iff.mpr
  intro limit hlimit
  have hlt := h limit hlimit
  simp only [decide_eq_true_eq]
  omega

/-- At its limit a run is over, whatever comes next. -/
theorem step_of_steps_eq_limit
    {g : Graph}
    {o : Options}
    {m : Machine}
    (h : o.maxSteps = some m.steps) :
    m.step g o = .ended m (.error (.stepLimit m.steps m.current)) := by
  have hlimit : exhausted? o m.steps = some m.steps := by
    simp [exhausted?, h]
  unfold step
  rw [hlimit]

section Limits

variable {g : Graph}
variable {o : Options}

theorem step_withLimit_eq
    {m : Machine}
    {limit limit' : Option Nat}
    (h : ∀ k ∈ limit, m.steps < k)
    (h' : ∀ k ∈ limit', m.steps < k) :
    m.step g (o.withLimit limit) = m.step g (o.withLimit limit') := by
  have hnone : exhausted? (o.withLimit limit) m.steps = none := exhausted?_eq_none h
  have hnone' : exhausted? (o.withLimit limit') m.steps = none := exhausted?_eq_none h'
  unfold step
  rw [hnone, hnone']
  rfl

/-- Two limits that allow as many steps do not tell runs of that length apart. -/
theorem advance_withLimit_eq
    {fuel : Nat}
    {m : Machine}
    {limit limit' : Option Nat}
    (h : ∀ k ∈ limit, m.steps + fuel ≤ k)
    (h' : ∀ k ∈ limit', m.steps + fuel ≤ k) :
    m.advance g (o.withLimit limit) fuel = m.advance g (o.withLimit limit') fuel := by
  induction fuel generalizing m with
  | zero =>
      rfl
  | succ fuel ih =>
      have hstep : m.step g (o.withLimit limit) = m.step g (o.withLimit limit') := by
        apply step_withLimit_eq
        · intro k hk
          have hle := h k hk
          omega
        · intro k hk
          have hle := h' k hk
          omega
      rw [advance_succ, advance_succ, ← hstep]
      cases hnext : m.step g (o.withLimit limit) with
      | ended final result =>
          rfl
      | running next =>
          -- One step has been used up, and the next machine has counted it.
          obtain ⟨-, -, -, hextends⟩ := exists_node_of_step_running hnext
          have hsteps := hextends.steps_eq
          apply ih
          · intro k hk
            have hle := h k hk
            omega
          · intro k hk
            have hle := h' k hk
            omega

/-- A run that ends within its limit does not exceed it, and executes the last node that the limit
allows only if it ends at that node. -/
theorem not_stepLimit_of_advance_ended
    {fuel : Nat}
    {m final : Machine}
    {halt : Except RunError String}
    (hlimit : ∀ k ∈ o.maxSteps, m.steps + fuel ≤ k)
    (h : m.advance g o fuel = .ended final halt) :
    (∀ k node, halt ≠ .error (.stepLimit k node)) ∧
      final.steps ≤ m.steps + fuel ∧
      ¬ (final.steps = m.steps + fuel ∧ EndsBetween g halt) := by
  obtain ⟨before, p, hlt, hbefore, hlast⟩ := exists_last_step h
  have hsteps := (extends_of_advance_running hbefore).steps_eq
  have hnone : exhausted? o p.steps = none := by
    apply exhausted?_eq_none
    intro k hk
    have hle := hlimit k hk
    omega
  have hstep := transition_step g o p
  rw [hlast] at hstep
  cases hstep with
  | limit hsome =>
      rw [hnone] at hsome
      cases hsome
  | between _ hbetween =>
      refine ⟨?_, by omega, by omega⟩
      rintro k node rfl
      exact hbetween
  | visit _ hget hextends hleaves =>
      have hfinal := hextends.steps_eq
      cases hleaves with
      | halt _ =>
          refine ⟨by simp, by omega, ?_⟩
          rintro ⟨-, hbetween⟩
          -- The node at which the run halts was found under its own name.
          have hname := Graph.name_of_get? hget
          rw [EndsBetween, hname, hget] at hbetween
          cases hbetween
      | refused =>
          exact ⟨by simp, by omega, fun hboth => hboth.2⟩

/-- A run without a limit executes another node, unless it is over between two nodes. -/
theorem lt_steps_of_advance_ended
    {fuel : Nat}
    {m final : Machine}
    {halt : Except RunError String}
    (hlimit : o.maxSteps = none)
    (h : m.advance g o fuel = .ended final halt) :
    m.steps < final.steps ∨ (final = m ∧ EndsBetween g halt) := by
  cases fuel with
  | zero =>
      cases h
  | succ fuel =>
      rw [advance_succ] at h
      have hstep := transition_step g o m
      generalize m.step g o = p at h hstep
      cases hstep with
      | limit hsome =>
          simp [exhausted?, hlimit] at hsome
      | between _ hbetween =>
          cases h
          exact .inr ⟨rfl, hbetween⟩
      | visit _ _ hextends hleaves =>
          have hsteps := hextends.steps_eq
          cases hleaves with
          | next _ =>
              obtain ⟨count, hrest⟩ := exists_extends_of_advance_ended h
              have hfinal := hrest.steps_eq
              exact .inl (by omega)
          | halt _ =>
              cases h
              exact .inl (by omega)
          | refused =>
              cases h
              exact .inl (by omega)

end Limits

end Machine

namespace Session

def limitedTo (s : Session) (limit : Option Nat) : Session :=
  { s with options := s.options.withLimit limit }

section Limits

variable {s : Session}
variable {limit : Nat}

theorem progress_limitedTo_eq
    {fuel : Nat}
    {a b : Option Nat}
    (ha : ∀ k ∈ a, fuel ≤ k)
    (hb : ∀ k ∈ b, fuel ≤ k) :
    (s.limitedTo a).progress fuel = (s.limitedTo b).progress fuel := by
  apply Machine.advance_withLimit_eq
  · simpa [Machine.initial] using ha
  · simpa [Machine.initial] using hb

/-- A run that is still going on at its limit is cut there. -/
theorem progress_succ_of_running
    {m : Machine}
    (h : (s.limitedTo (some limit)).progress limit = .running m) :
    (s.limitedTo (some limit)).progress (limit + 1) =
      .ended m (.error (.stepLimit limit m.current)) := by
  have hsteps := steps_of_progress_running h
  have hlimit : (s.limitedTo (some limit)).options.maxSteps = some m.steps := by
    rw [hsteps]
    rfl
  unfold progress
  rw [Machine.advance_of_running 1 h, Machine.advance_succ,
    Machine.step_of_steps_eq_limit hlimit, hsteps]

/-- A run with a limit is over one step later. -/
theorem exists_ended_limitedTo
    (s : Session)
    (limit : Nat) :
    ∃ final halt,
      (s.limitedTo (some limit)).progress (limit + 1) = .ended final halt := by
  cases h : (s.limitedTo (some limit)).progress limit with
  | ended final halt =>
      exact ⟨final, halt, Machine.advance_of_ended 1 h⟩
  | running m =>
      exact ⟨m, _, progress_succ_of_running h⟩

/-- With a limit, the end of a run is what running gives. -/
theorem run_of_ends
    {executed : Nat}
    {result : Except RunError Report}
    {after : Session}
    (h : (s.limitedTo (some limit)).Ends executed result after) :
    (s.limitedTo (some limit)).run = some (result, after) := by
  obtain ⟨fuel, final, halt, hended, -, hconclude⟩ := h
  obtain ⟨final', halt', hhorizon⟩ := exists_ended_limitedTo s limit
  obtain ⟨rfl, rfl⟩ := Machine.ended_unique hended hhorizon
  change (s.limitedTo (some limit)).runWithin (limit + 1) = _
  rw [runWithin_eq, hhorizon, ← hconclude]

theorem limit_le_of_progress_ended
    {final : Machine}
    {halt : Except RunError String}
    (h : (s.limitedTo (some limit)).progress limit = .ended final halt) :
    (∀ k node, halt ≠ .error (.stepLimit k node)) ∧
      final.steps ≤ limit ∧
      ¬ (final.steps = limit ∧ EndsBetween s.graph halt) := by
  have hallows :
      ∀ k ∈ (s.limitedTo (some limit)).options.maxSteps,
        (Machine.initial s.out s.log).steps + limit ≤ k := by
    simp [limitedTo, Options.withLimit, Machine.initial]
  have hended := Machine.not_stepLimit_of_advance_ended hallows h
  simp only [Machine.initial, Nat.zero_add] at hended
  exact hended

/-- A run that goes on after as many steps as a limit allows executes more nodes than that, unless
it is over between two nodes. -/
theorem limit_lt_of_progress_running
    {fuel : Nat}
    {m final : Machine}
    {halt : Except RunError String}
    (h : (s.limitedTo none).progress limit = .running m)
    (h' : (s.limitedTo none).progress fuel = .ended final halt) :
    limit < final.steps ∨ (final = m ∧ EndsBetween s.graph halt) := by
  have hsteps := steps_of_progress_running h
  have hrest := Machine.ended_of_running h h'
  have hmore := Machine.lt_steps_of_advance_ended rfl hrest
  rw [hsteps] at hmore
  exact hmore

/-- A run exceeds its limit exactly if without the limit it executes more nodes or never ends, or
executes exactly as many and ends between two nodes.  Every run that executes no more nodes than
the limit allows leaves the same memory and output with the limit as without, and unless it ends
like that, it has the same result. -/
theorem run_limitedTo_eq_stepLimit_iff
    (s : Session)
    (limit : Nat) :
    ∃ result after,
      (s.limitedTo (some limit)).run = some (result, after) ∧
      ((∃ k node, result = .error (.stepLimit k node)) ↔
        ∀ executed result' after',
          (s.limitedTo none).Ends executed result' after' →
          limit < executed ∨
            (executed = limit ∧ EndsBetween s.graph (result'.map Report.haltedAt))) ∧
      ∀ executed result' after',
        (s.limitedTo none).Ends executed result' after' →
        executed ≤ limit →
        after.memory = after'.memory ∧
        after.out = after'.out ∧
        (¬ (executed = limit ∧ EndsBetween s.graph (result'.map Report.haltedAt)) →
          result = result' ∧ after.recovered = after'.recovered) := by
  have hagree :
      (s.limitedTo (some limit)).progress limit = (s.limitedTo none).progress limit :=
    progress_limitedTo_eq (by simp) (by simp)
  cases hlimit : (s.limitedTo (some limit)).progress limit with
  | ended final halt =>
      -- The run is over before the limit is tested again, and so is the run without a limit.
      obtain ⟨hnot, hle, hbetween⟩ := limit_le_of_progress_ended hlimit
      rw [hlimit] at hagree
      refine ⟨_, _, run_of_ends (ends_of_progress hlimit), ?_, ?_⟩
      · constructor
        · rintro ⟨k, node, hresult⟩
          rw [conclude_fst_eq_error_iff] at hresult
          exact absurd hresult (hnot k node)
        · intro hall
          have hends := hall _ _ _ (ends_of_progress hagree.symm)
          rw [map_haltedAt_conclude] at hends
          rcases hends with hlt | hboth
          · omega
          · exact absurd hboth hbetween
      · rintro executed result' after' ⟨fuel, final', halt', hended, rfl, hconclude⟩ -
        obtain ⟨rfl, rfl⟩ := Machine.ended_unique hagree.symm hended
        obtain ⟨rfl, rfl⟩ := Prod.ext_iff.mp hconclude
        refine ⟨?_, ?_, ?_⟩
        · rw [memory_conclude, memory_conclude]
        · rw [out_conclude, out_conclude]
        · intro _
          exact ⟨conclude_fst_eq _ _ _ _ _, recovered_conclude_eq _ _ _ _ _⟩
  | running m =>
      -- The limit cuts the run here, and without it the run goes on from here.
      rw [hlimit] at hagree
      have hcut := progress_succ_of_running hlimit
      refine ⟨_, _, run_of_ends (ends_of_progress hcut), ?_, ?_⟩
      · constructor
        · rintro - executed result' after' ⟨fuel, final, halt, hended, rfl, hconclude⟩
          obtain ⟨rfl, rfl⟩ := Prod.ext_iff.mp hconclude
          rw [map_haltedAt_conclude]
          rcases limit_lt_of_progress_running hagree.symm hended with hlt | ⟨rfl, hbetween⟩
          · exact .inl hlt
          · exact .inr ⟨steps_of_progress_running hagree.symm, hbetween⟩
        · intro _
          exact ⟨limit, m.current, rfl⟩
      · rintro executed result' after' ⟨fuel, final, halt, hended, rfl, hconclude⟩ hle
        obtain ⟨rfl, rfl⟩ := Prod.ext_iff.mp hconclude
        rcases limit_lt_of_progress_running hagree.symm hended with hlt | ⟨rfl, hbetween⟩
        · omega
        · refine ⟨?_, ?_, ?_⟩
          · rw [memory_conclude, memory_conclude]
          · rw [out_conclude, out_conclude]
          · intro hnot
            rw [map_haltedAt_conclude] at hnot
            exact absurd ⟨steps_of_progress_running hagree.symm, hbetween⟩ hnot

/-- A program of one node that goes on to an undeclared `end`. -/
def oneNode : Session :=
  .new (Program.parse "<start>[end]\x7bSET(1)\x7d") .standard .unlimited .off

/-- The program executes one node and halts, and yet exceeds a limit of one node. -/
theorem oneNode_exceeds_its_own_count :
    (∃ after, (oneNode.limitedTo none).Ends 1 (.ok ⟨1, "end", 0, #[]⟩) after) ∧
      ∃ after, (oneNode.limitedTo (some 1)).run = some (.error (.stepLimit 1 "end"), after) := by
  constructor
  · have hresult :
        ((oneNode.limitedTo none).runWithin 2).map Prod.fst = some (.ok ⟨1, "end", 0, #[]⟩) := by
      decide +kernel
    obtain ⟨⟨result, after⟩, hrun, rfl⟩ := Option.map_eq_some_iff.mp hresult
    exact ⟨after, ends_of_runWithin_ok hrun⟩
  · have hresult :
        (oneNode.limitedTo (some 1)).run.map Prod.fst = some (.error (.stepLimit 1 "end")) := by
      decide +kernel
    obtain ⟨⟨result, after⟩, hrun, rfl⟩ := Option.map_eq_some_iff.mp hresult
    exact ⟨after, hrun⟩

/-- A run cut before a node after so many steps, as a run that need not stop there sees it. -/
structure CutBefore (s : Session) (limit : Nat) (node : String) (cut : Session) : Prop where
  start : limit = 0 → node = Node.startName
  /-- The node is the successor that was chosen in the last step. -/
  successor : ∀ before, limit = before + 1 →
    ∃ m n,
      s.progress before = .running m ∧
      s.graph.get? m.current = some n ∧
      n.next (m.answer s.options n) = some node
  memory : ∃ m, s.progress limit = .running m ∧ m.memory = cut.memory
  out : ∀ executed result after, s.Ends executed result after → cut.out.Grows after.out
  recovered : ∀ executed result after, s.Ends executed result after →
    ∃ ds, after.skipped result = cut.recovered ++ ds

/-- The end of a run has the output and the skipped operations of each machine before it. -/
theorem Ends.keeps_of_running
    {fuel executed : Nat}
    {m : Machine}
    {result : Except RunError Report}
    {after : Session}
    (hends : s.Ends executed result after)
    (h : s.progress fuel = .running m) :
    m.out.Grows after.out ∧ ∃ ds, after.skipped result = m.diagnostics ++ ds := by
  obtain ⟨fuel', final, halt, hended, -, hconclude⟩ := hends
  obtain ⟨rfl, rfl⟩ := Prod.ext_iff.mp hconclude
  obtain ⟨count, hrest⟩ :=
    Machine.exists_extends_of_advance_ended (Machine.ended_of_running h hended)
  rw [out_conclude, skipped_conclude]
  exact ⟨hrest.out_grows, hrest.diagnostics_grow⟩

theorem cutBefore_of_running
    {m : Machine}
    {o : Options}
    (h : s.progress limit = .running m) :
    s.CutBefore limit m.current
      (conclude s.graph o (.error (.stepLimit limit m.current)) m).2 where
  start := by
    rintro rfl
    cases h
    rfl
  successor := by
    rintro before rfl
    exact Machine.exists_predecessor h
  memory := ⟨m, h, rfl⟩
  out := by
    intro executed result after hends
    exact (hends.keeps_of_running h).1
  recovered := by
    intro executed result after hends
    exact (hends.keeps_of_running h).2

/-- A higher limit, or none, only extends a run.  A run that does not exceed its limit stays as it
is, and one that does is cut before a node that the longer run reaches, too. -/
theorem run_limitedTo_higher
    (s : Session)
    (limit : Nat)
    (higher : Option Nat)
    (hle : ∀ k ∈ higher, limit ≤ k) :
    (∀ k ∈ higher, ∃ executed result after,
      (s.limitedTo higher).Ends executed result after ∧
      (s.limitedTo higher).run = some (result, after)) ∧
    ∃ executed result after,
      (s.limitedTo (some limit)).run = some (result, after) ∧
      (s.limitedTo (some limit)).Ends executed result after ∧
      ((∀ k node, result ≠ .error (.stepLimit k node)) →
        ∃ after',
          (s.limitedTo higher).Ends executed result after' ∧
          (∀ k ∈ higher, (s.limitedTo higher).run = some (result, after')) ∧
          after'.memory = after.memory ∧
          after'.recovered = after.recovered ∧
          after'.out = after.out) ∧
      ∀ k node,
        result = .error (.stepLimit k node) →
        k = limit ∧
        executed = limit ∧
        (s.limitedTo higher).CutBefore limit node after := by
  have hagree :
      (s.limitedTo (some limit)).progress limit = (s.limitedTo higher).progress limit :=
    progress_limitedTo_eq (by simp) hle
  constructor
  · rintro k rfl
    obtain ⟨final, halt, hended⟩ := exists_ended_limitedTo s k
    exact ⟨_, _, _, ends_of_progress hended, run_of_ends (ends_of_progress hended)⟩
  · cases hlimit : (s.limitedTo (some limit)).progress limit with
    | ended final halt =>
        obtain ⟨hnot, -, -⟩ := limit_le_of_progress_ended hlimit
        rw [hlimit] at hagree
        have hends := ends_of_progress hlimit
        refine ⟨_, _, _, run_of_ends hends, hends, ?_, ?_⟩
        · intro _
          have hends' := ends_of_progress hagree.symm
          rw [conclude_fst_eq _ _ _ _ (s.limitedTo (some limit)).options] at hends'
          refine ⟨_, hends', ?_, ?_, ?_, ?_⟩
          · rintro k rfl
            exact run_of_ends hends'
          · rw [memory_conclude, memory_conclude]
          · exact recovered_conclude_eq _ _ _ _ _
          · rw [out_conclude, out_conclude]
        · intro k node hresult
          rw [conclude_fst_eq_error_iff] at hresult
          exact absurd hresult (hnot k node)
    | running m =>
        rw [hlimit] at hagree
        have hends := ends_of_progress (progress_succ_of_running hlimit)
        refine ⟨_, _, _, run_of_ends hends, hends, ?_, ?_⟩
        · intro hnot
          exact absurd rfl (hnot limit m.current)
        · rintro k node hresult
          rw [conclude_fst_eq_error_iff] at hresult
          cases hresult
          exact ⟨rfl, steps_of_progress_running hlimit, cutBefore_of_running hagree.symm⟩

/-- The program of one node is cut before `end`, where a limit of two nodes lets it go on. -/
theorem oneNode_limitedTo_two :
    (∀ k ∈ some 2, 1 ≤ k) ∧
      ∃ cut,
        (oneNode.limitedTo (some 1)).run = some (.error (.stepLimit 1 "end"), cut) ∧
        (oneNode.limitedTo (some 2)).CutBefore 1 "end" cut := by
  have hle : ∀ k ∈ some 2, 1 ≤ k := by
    simp
  have hresult :
      (oneNode.limitedTo (some 1)).run.map Prod.fst = some (.error (.stepLimit 1 "end")) := by
    decide +kernel
  obtain ⟨-, executed, result, after, hrun, -, -, hcut⟩ :=
    run_limitedTo_higher oneNode 1 (some 2) hle
  rw [hrun] at hresult
  have herror : result = .error (.stepLimit 1 "end") := Option.some.inj hresult
  subst herror
  exact ⟨hle, after, hrun, (hcut 1 "end" rfl).2.2⟩

end Limits

end Session
end Run
end GraphMachine
