import GraphMachine.Proofs.Run.Debugging

/-!
# Runs of one session

A session keeps the memory of its last run, the notes of a run that failed and the output of all its
runs.  None of these has any part in the next run: with an output that never refuses, two sessions
of the same program run side by side whatever they have kept, and each appends the same bytes to its
own output.  So after any history the next run is like the first run of a new session.
-/

namespace GraphMachine
namespace Run

namespace Machine

/-- Two machines that differ in log and output at most, with outputs that never refuse and to which
the same bytes have been appended. -/
structure Accords (taken taken' : ByteArray) (m m' : Machine) : Prop extends Alike m m' where
  unlimited : m.out.room = none
  unlimited' : m'.out.room = none
  appended : ∃ bytes, m.out.taken = taken ++ bytes ∧ m'.out.taken = taken' ++ bytes

section Accord

variable {taken taken' : ByteArray}
variable {m m' : Machine}

theorem Accords.goTo
    (h : Accords taken taken' m m')
    (name : String)
    (origin : Option String) :
    Accords taken taken' { m with current := name, origin := origin }
      { m' with current := name, origin := origin } where
  toAlike := h.toAlike.goTo name origin
  unlimited := h.unlimited
  unlimited' := h.unlimited'
  appended := h.appended

/-- In one step both machines do the same, and append the same bytes. -/
theorem Accords.paired_step
    (h : Accords taken taken' m m')
    (g : Graph)
    (o : Options) :
    Progress.Paired (Accords taken taken') (m.step g o) (m'.step g o) := by
  -- The two options are the same here, so both machines show the same text.
  rcases h.toAlike.step_cases (g := g) (o := o) h.unlimited h.unlimited' o.debug o.debug with
    ⟨halt, hstep, hstep'⟩ |
      ⟨n, answer, w, next, next', halike, -, hout, hout', -, hstep, hstep'⟩
  · have hended : m.step g o = .ended m halt := hstep
    have hended' : m'.step g o = .ended m' halt := hstep'
    rw [hended, hended']
    exact .ended h
  · have hproceed : m.step g o = next.proceed n answer true := hstep
    have hproceed' : m'.step g o = next'.proceed n answer true := hstep'
    obtain ⟨bytes, htaken, htaken'⟩ := h.appended
    have hnext : Accords taken taken' next next' := by
      refine ⟨halike, by rw [hout], by rw [hout'], bytes ++ (w.shown o.debug).toUTF8, ?_, ?_⟩
      · rw [hout, htaken, ByteArray.append_assoc]
      · rw [hout', htaken', ByteArray.append_assoc]
    rw [hproceed, hproceed']
    exact paired_proceed rfl rfl hnext hnext.goTo

end Accord

end Machine

namespace Session

/-- Two sessions of the same program with outputs that never refuse. -/
structure Siblings (s t : Session) : Prop where
  graph_eq : t.graph = s.graph
  options_eq : t.options = s.options
  unlimited : s.out.room = none
  unlimited' : t.out.room = none

/-- The sessions that come out of a session by running it and by taking its notes, in any order and
any number of times.  Its runs may succeed or fail. -/
inductive Reaches (s : Session) : Session → Prop
  | new : Reaches s s
  | run
      {t after : Session}
      {executed : Nat}
      {result : Except RunError Report}
      (h : Reaches s t)
      (hends : t.Ends executed result after) :
      Reaches s after
  | take
      {t : Session}
      (h : Reaches s t) :
      Reaches s t.takeDiagnostics.2

section Histories

variable {s t after : Session}
variable {executed : Nat}
variable {result : Except RunError Report}

theorem Siblings.symm
    (h : Siblings s t) :
    Siblings t s where
  graph_eq := h.graph_eq.symm
  options_eq := h.options_eq.symm
  unlimited := h.unlimited'
  unlimited' := h.unlimited

theorem Siblings.accords_initial
    (h : Siblings s t) :
    Machine.Accords s.out.taken t.out.taken (.initial s.out s.log) (.initial t.out t.log) where
  memory_eq := rfl
  steps_eq := rfl
  diagnostics_eq := rfl
  current_eq := rfl
  origin_eq := rfl
  unlimited := h.unlimited
  unlimited' := h.unlimited'
  appended := ⟨.empty, ByteArray.append_empty.symm, ByteArray.append_empty.symm⟩

theorem Siblings.paired_progress
    (h : Siblings s t)
    (fuel : Nat) :
    Progress.Paired (Machine.Accords s.out.taken t.out.taken) (s.progress fuel)
      (t.progress fuel) := by
  unfold progress
  rw [h.graph_eq, h.options_eq]
  apply Machine.paired_advance
  · intro m m' haccords
    exact haccords.paired_step s.graph s.options
  · exact h.accords_initial

/-- If the run of one sibling ends, the run of the other one ends in the same way. -/
theorem Siblings.exists_ends
    (h : Siblings s t)
    (hends : s.Ends executed result after) :
    ∃ after' bytes,
      t.Ends executed result after' ∧
      after'.memory = after.memory ∧
      after'.recovered = after.recovered ∧
      after.out.taken = s.out.taken ++ bytes ∧
      after'.out.taken = t.out.taken ++ bytes := by
  obtain ⟨fuel, final, halt, hended, rfl, hconclude⟩ := hends
  obtain ⟨rfl, rfl⟩ := Prod.ext_iff.mp hconclude
  obtain ⟨final', hended', haccords⟩ := (h.paired_progress fuel).exists_ended hended
  obtain ⟨hresult, hmemory, hrecovered⟩ :=
    conclude_of_alike haccords.toAlike s.graph s.options s.options halt
  obtain ⟨bytes, htaken, htaken'⟩ := haccords.appended
  rw [out_conclude]
  refine ⟨(conclude s.graph s.options halt final').2, bytes, ?_, hmemory, hrecovered, htaken, ?_⟩
  · refine ⟨fuel, final', halt, hended', haccords.steps_eq, ?_⟩
    rw [h.graph_eq, h.options_eq]
    exact Prod.ext hresult rfl
  · rw [out_conclude]
    exact htaken'

/-- A sibling is still one after its run. -/
theorem Siblings.of_ends
    (h : Siblings s t)
    (hends : t.Ends executed result after) :
    Siblings s after := by
  obtain ⟨fuel, final, halt, hended, -, hconclude⟩ := hends
  obtain ⟨rfl, rfl⟩ := Prod.ext_iff.mp hconclude
  obtain ⟨final', -, haccords⟩ := (h.symm.paired_progress fuel).exists_ended hended
  refine ⟨?_, ?_, h.unlimited, ?_⟩
  · rw [graph_conclude, h.graph_eq]
  · rw [options_conclude, h.options_eq]
  · rw [out_conclude, haccords.unlimited]

/-- After any history a session has its program and an output that never refuses. -/
theorem Reaches.siblings
    (h : s.Reaches t)
    (hroom : s.out.room = none) :
    Siblings s t := by
  induction h with
  | new =>
      exact ⟨rfl, rfl, hroom, hroom⟩
  | run _ hends ih =>
      exact ih.of_ends hends
  | take _ ih =>
      exact ⟨ih.graph_eq, ih.options_eq, ih.unlimited, ih.unlimited'⟩

/-- Siblings give the same result. -/
theorem Siblings.map_fst_run
    (h : Siblings s t) :
    t.run.map Prod.fst = s.run.map Prod.fst := by
  unfold run
  rw [runWithin_eq, runWithin_eq, h.graph_eq, h.options_eq]
  have hpaired := h.paired_progress s.options.horizon
  generalize s.progress s.options.horizon = p at hpaired ⊢
  generalize t.progress s.options.horizon = p' at hpaired ⊢
  cases hpaired with
  | running _ =>
      rfl
  | @ended m m' halt haccords =>
      exact congrArg some
        (conclude_of_alike haccords.toAlike s.graph s.options s.options halt).1

/-- Runs of one session are independent.  With an output that never refuses, the next run after any
history is like the first run of a new session of the same program: the one ends exactly if the
other one does, with the same result, memory and notes, and both append the same bytes to their
outputs. -/
theorem next_run_like_first
    (graph : Graph)
    (options : Options)
    (out out' : Sink)
    (log log' : Log)
    (hroom : out.room = none)
    (hroom' : out'.room = none)
    (s : Session)
    (h : (Session.new graph options out log).Reaches s) :
    (∀ executed result first,
      (Session.new graph options out' log').Ends executed result first →
      ∃ next bytes,
        s.Ends executed result next ∧
        next.memory = first.memory ∧
        next.recovered = first.recovered ∧
        first.out.taken = out'.taken ++ bytes ∧
        next.out.taken = s.out.taken ++ bytes) ∧
    (∀ executed result next,
      s.Ends executed result next →
      ∃ first, (Session.new graph options out' log').Ends executed result first) ∧
    s.run.map Prod.fst = (Session.new graph options out' log').run.map Prod.fst := by
  have hsiblings := h.siblings hroom
  have hfresh : Siblings (Session.new graph options out' log') s :=
    ⟨hsiblings.graph_eq, hsiblings.options_eq, hroom', hsiblings.unlimited'⟩
  refine ⟨?_, ?_, hfresh.map_fst_run⟩
  · intro executed result first hfirst
    exact hfresh.exists_ends hfirst
  · intro executed result next hnext
    obtain ⟨first, -, hfirst, -⟩ := hfresh.symm.exists_ends hnext
    exact ⟨first, hfirst⟩

/-- A program that counts, skips an operation, writes and then misses a node. -/
def countThenMissing : Session :=
  .new
    (Program.parse
      "<start>[a]\x7bINCREMENT\x7d\n<a>[b]\x7bJUMP\x7d\n<b>[gone]\x7bOUTPUT(\x7b\x7d)\x7d")
    .standard .unlimited .off

/-- The first run leaves a count, a note and a line of output.  The second run counts from zero
again. -/
theorem countThenMissing_again :
    countThenMissing.out.room = none ∧
      ∃ t executed next,
        countThenMissing.Reaches t ∧
        t.memory.current = 1 ∧
        t.recovered.size = 1 ∧
        t.out.taken = "1\n".toUTF8 ∧
        t.Ends executed (.error (.nodeNotFound "gone" (some "b"))) next ∧
        next.recovered = t.recovered ∧
        next.out.taken = "1\n".toUTF8 ++ "1\n".toUTF8 := by
  have hroom : countThenMissing.out.room = none := rfl
  have hresult :
      (countThenMissing.runWithin 4).map
          (fun r => (r.1, r.2.memory.current, r.2.recovered.size, r.2.out.taken)) =
        some (.error (.nodeNotFound "gone" (some "b")), 1, 1, "1\n".toUTF8) := by
    decide +kernel
  obtain ⟨⟨result, t⟩, hrun, heq⟩ := Option.map_eq_some_iff.mp hresult
  simp only [Prod.mk.injEq] at heq
  obtain ⟨rfl, hcurrent, hsize, htaken⟩ := heq
  obtain ⟨executed, hends⟩ := exists_ends_of_runWithin hrun
  have hreaches : countThenMissing.Reaches t := .run .new hends
  obtain ⟨hnext, -, -⟩ :=
    next_run_like_first countThenMissing.graph countThenMissing.options countThenMissing.out
      countThenMissing.out countThenMissing.log countThenMissing.log hroom hroom t hreaches
  obtain ⟨next, bytes, hends', -, hrecovered, hfirst, hnext'⟩ := hnext _ _ _ hends
  have hbytes : bytes = "1\n".toUTF8 := by
    have hempty : countThenMissing.out.taken ++ bytes = bytes := ByteArray.empty_append
    rw [← hempty, ← hfirst, htaken]
  refine ⟨hroom, t, executed, next, hreaches, hcurrent, hsize, htaken, hends', hrecovered, ?_⟩
  rw [hnext', hbytes, htaken]

end Histories

end Session
end Run
end GraphMachine
