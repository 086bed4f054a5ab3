import GraphMachine.Proofs.Run.Execution

/-!
# Outputs that refuse

A run into an output with room for so many bytes goes along with the same run into an output that
never refuses, for as long as all text is taken.  If the whole text has room, both runs end alike.
Otherwise the run ends at the first step whose text has no room: the output has then taken exactly
as many bytes as it could, and what was noted up to there is what the longer run noted first.
-/

namespace GraphMachine
namespace Run
namespace Machine

/-- The second machine is the first one with room for so many bytes only. -/
structure Narrows (k : Nat) (m m' : Machine) : Prop extends Alike m m' where
  unlimited : m.out.room = none
  out_eq : m'.out = ⟨m.out.taken, some k⟩

section Narrow

variable {g : Graph}
variable {o : Options}
variable {k : Nat}
variable {m m' : Machine}

theorem Narrows.goTo
    (h : Narrows k m m')
    (name : String)
    (origin : Option String) :
    Narrows k { m with current := name, origin := origin }
      { m' with current := name, origin := origin } where
  toAlike := h.toAlike.goTo name origin
  unlimited := h.unlimited
  out_eq := h.out_eq

theorem Narrows.stepText_eq
    (h : Narrows k m m')
    (n : Node) :
    m'.stepText o n = m.stepText o n := by
  unfold stepText traceText
  rw [h.memory_eq, h.steps_eq]

/-- In one step both runs end in the same way before a node, or execute the same node and write the
same bytes, of which the narrow output takes those that have room. -/
theorem Narrows.step_cases
    (h : Narrows k m m') :
    (∃ halt, m.step g o = .ended m halt ∧ m'.step g o = .ended m' halt) ∨
      ∃ n answer bytes next next',
        Alike next next' ∧
        next.out = ⟨m.out.taken ++ bytes, none⟩ ∧
        next'.out = ⟨m.out.taken ++ bytes.extract 0 k, some (k - bytes.size)⟩ ∧
        m.step g o = next.proceed n answer true ∧
        m'.step g o = next'.proceed n answer (decide (bytes.size ≤ k)) := by
  have hupcoming : m'.upcoming g o = m.upcoming g o :=
    h.toAlike.upcoming_eq g o o.debug o.debug
  rcases Machine.step_cases g o m with ⟨halt, hnext, hstep⟩ | ⟨n, log, hnext, hstep⟩
  · refine .inl ⟨halt, hstep, ?_⟩
    rw [step_eq, hupcoming, hnext]
  · obtain ⟨log', hvisit⟩ := m'.visit_eq o n
    have hwrite :
        m.out.write (m.stepText o n) = (true, ⟨m.out.taken ++ (m.stepText o n).toUTF8, none⟩) := by
      have hout : m.out = ⟨m.out.taken, none⟩ := by rw [← h.unlimited]
      rw [hout, Sink.write_unlimited]
    have hwrite' :
        m'.out.write (m'.stepText o n) =
          (decide ((m.stepText o n).toUTF8.size ≤ k),
            ⟨m.out.taken ++ (m.stepText o n).toUTF8.extract 0 k,
              some (k - (m.stepText o n).toUTF8.size)⟩) := by
      rw [h.stepText_eq, h.out_eq, Sink.write_limited]
    refine .inr ⟨n, (attempt o n m.memory).answer, (m.stepText o n).toUTF8, m.executed o n log,
      m'.executed o n log', h.toAlike.executed o o.debug o.debug n log log', ?_, ?_, ?_, ?_⟩
    · simp only [executed, hwrite]
    · simp only [executed, hwrite']
    · rw [hstep, hwrite]
    · rw [step_eq, hupcoming, hnext]
      simp only [hvisit, hwrite', h.memory_eq]

/-- After bytes that have room the machines go on side by side. -/
theorem narrows_of_fits
    {bytes taken : ByteArray}
    (halike : Alike m m')
    (hout : m.out = ⟨taken ++ bytes, none⟩)
    (hout' : m'.out = ⟨taken ++ bytes.extract 0 k, some (k - bytes.size)⟩)
    (hfits : bytes.size ≤ k) :
    Narrows (k - bytes.size) m m' where
  toAlike := halike
  unlimited := by rw [hout]
  out_eq := by
    rw [hout', hout, Sink.extract_of_size_le hfits]

theorem eq_empty_of_taken_eq
    {taken bytes : ByteArray}
    (h : taken = taken ++ bytes) :
    bytes = ByteArray.empty := by
  rw [← ByteArray.append_right_inj taken, ← h, ByteArray.append_empty]

/-- What is written after the first bytes of a run. -/
theorem exists_rest_of_advance
    {fuel : Nat}
    {next final : Machine}
    {halt : Except RunError String}
    {taken first bytes : ByteArray}
    (h : next.advance g o fuel = .ended final halt)
    (hnext : next.out.taken = taken ++ first)
    (hfinal : final.out.taken = taken ++ bytes) :
    ∃ rest, final.out.taken = next.out.taken ++ rest ∧ bytes = first ++ rest := by
  obtain ⟨count, hextends⟩ := exists_extends_of_advance_ended h
  obtain ⟨rest, hrest⟩ := hextends.out_grows
  refine ⟨rest, hrest, ?_⟩
  rw [hrest, hnext, ByteArray.append_assoc] at hfinal
  exact ((ByteArray.append_right_inj taken).mp hfinal).symm

/-- If there is room for all that a run writes, it ends in the same way. -/
theorem Narrows.ended_of_fits
    {fuel : Nat}
    {final : Machine}
    {halt : Except RunError String}
    {bytes : ByteArray}
    (h : Narrows k m m')
    (hended : m.advance g o fuel = .ended final halt)
    (hfinal : final.out.taken = m.out.taken ++ bytes)
    (hfits : bytes.size ≤ k) :
    ∃ final',
      m'.advance g o fuel = .ended final' halt ∧ Narrows (k - bytes.size) final final' := by
  induction fuel generalizing k m m' bytes with
  | zero =>
      cases hended
  | succ fuel ih =>
      rw [advance_succ] at hended
      rcases h.step_cases (g := g) (o := o) with
        ⟨halt', hstep, hstep'⟩ | ⟨n, answer, first, next, next', halike, hout, hout', hstep, hstep'⟩
      · rw [hstep] at hended
        obtain ⟨rfl, rfl⟩ := Progress.ended.inj hended
        refine ⟨m', ?_, ?_⟩
        · rw [advance_succ, hstep']
        · simpa [eq_empty_of_taken_eq hfinal] using h
      · have htaken : next.out.taken = m.out.taken ++ first := by rw [hout]
        cases hnext : n.next answer with
        | none =>
            simp only [hstep, proceed, hnext, if_true] at hended
            cases hended
            have hbytes : bytes = first :=
              (ByteArray.append_right_inj m.out.taken).mp (hfinal.symm.trans htaken)
            subst hbytes
            refine ⟨next', ?_, narrows_of_fits halike hout hout' hfits⟩
            simp only [advance_succ, hstep', proceed, hnext, hfits, decide_true, if_true]
        | some name =>
            simp only [hstep, proceed, hnext, if_true] at hended
            obtain ⟨rest, hrest, rfl⟩ := exists_rest_of_advance hended htaken hfinal
            rw [ByteArray.size_append] at hfits
            have hfirst : first.size ≤ k := by omega
            have hnarrows := (narrows_of_fits halike hout hout' hfirst).goTo name (some n.name)
            obtain ⟨final', hended', hnarrows'⟩ := ih hnarrows hended hrest (by omega)
            refine ⟨final', ?_, ?_⟩
            · simp only [advance_succ, hstep', proceed, hnext, hfirst, decide_true, if_true]
              exact hended'
            · rwa [ByteArray.size_append, ← Nat.sub_sub]

/-- If there is not enough room for what a run writes, it ends as soon as the room is used up. -/
theorem Narrows.refused_of_not_fits
    {fuel : Nat}
    {final : Machine}
    {halt : Except RunError String}
    {bytes : ByteArray}
    (h : Narrows k m m')
    (hended : m.advance g o fuel = .ended final halt)
    (hfinal : final.out.taken = m.out.taken ++ bytes)
    (hmore : k < bytes.size) :
    ∃ cut ds,
      m'.advance g o fuel = .ended cut (.error .output) ∧
      cut.out.taken = m.out.taken ++ bytes.extract 0 k ∧
      final.diagnostics = cut.diagnostics ++ ds := by
  induction fuel generalizing k m m' bytes with
  | zero =>
      cases hended
  | succ fuel ih =>
      rw [advance_succ] at hended
      rcases h.step_cases (g := g) (o := o) with
        ⟨halt', hstep, hstep'⟩ | ⟨n, answer, first, next, next', halike, hout, hout', hstep, hstep'⟩
      · -- Nothing was written, so there was room for it.
        rw [hstep] at hended
        obtain ⟨rfl, rfl⟩ := Progress.ended.inj hended
        rw [eq_empty_of_taken_eq hfinal] at hmore
        cases hmore
      · have htaken : next.out.taken = m.out.taken ++ first := by rw [hout]
        cases hnext : n.next answer with
        | none =>
            simp only [hstep, proceed, hnext, if_true] at hended
            cases hended
            have hbytes : bytes = first :=
              (ByteArray.append_right_inj m.out.taken).mp (hfinal.symm.trans htaken)
            subst hbytes
            have hnot : ¬ bytes.size ≤ k := by omega
            refine ⟨next', #[], ?_, ?_, ?_⟩
            · simp only [advance_succ, hstep', proceed, hnot, decide_false, Bool.false_eq_true,
                if_false]
            · rw [hout']
            · rw [halike.diagnostics_eq, Array.append_empty]
        | some name =>
            simp only [hstep, proceed, hnext, if_true] at hended
            obtain ⟨rest, hrest, rfl⟩ := exists_rest_of_advance hended htaken hfinal
            by_cases hfirst : first.size ≤ k
            · -- The step has room, and the rest of the run has not.
              have hnarrows := (narrows_of_fits halike hout hout' hfirst).goTo name (some n.name)
              rw [ByteArray.size_append] at hmore
              obtain ⟨cut, ds, hcut, htaken', hds⟩ := ih hnarrows hended hrest (by omega)
              refine ⟨cut, ds, ?_, ?_, hds⟩
              · simp only [advance_succ, hstep', proceed, hnext, hfirst, decide_true, if_true]
                exact hcut
              · rw [htaken', ByteArray.extract_append, Sink.extract_of_size_le hfirst,
                  Nat.zero_sub]
                simp only [hout, ByteArray.append_assoc]
            · -- The step is refused, and the rest of the run is never reached.
              obtain ⟨count, hextends⟩ := exists_extends_of_advance_ended hended
              obtain ⟨ds, hds⟩ := hextends.diagnostics_grow
              have hfull : k - first.size = 0 := by omega
              refine ⟨next', ds, ?_, ?_, ?_⟩
              · simp only [advance_succ, hstep', proceed, hfirst, decide_false,
                  Bool.false_eq_true, if_false]
              · rw [hout', ByteArray.extract_append, Nat.zero_sub, hfull, ByteArray.extract_same,
                  ByteArray.append_empty]
              · rw [halike.diagnostics_eq]
                exact hds

end Narrow

end Machine

namespace Session

/-- The same session with an output that has the given room left. -/
def into (s : Session) (room : Option Nat) : Session :=
  { s with out := ⟨s.out.taken, room⟩ }

theorem narrows_initial
    (s : Session)
    (k : Nat) :
    Machine.Narrows k (.initial (s.into none).out s.log)
      (.initial (s.into (some k)).out s.log) where
  memory_eq := rfl
  steps_eq := rfl
  diagnostics_eq := rfl
  current_eq := rfl
  origin_eq := rfl
  unlimited := rfl
  out_eq := rfl

/-- A run that would write some bytes ends in the same way if the output has room for them, and is
otherwise cut: the output has taken as many of the bytes as it could, and the operations that were
skipped up to there are the first ones that the whole run skips. -/
theorem ends_into_limited
    {s after : Session}
    {executed : Nat}
    {result : Except RunError Report}
    (h : (s.into none).Ends executed result after)
    (k : Nat) :
    ∃ bytes,
      after.out.taken = s.out.taken ++ bytes ∧
      (bytes.size ≤ k →
        ∃ after',
          (s.into (some k)).Ends executed result after' ∧
          after'.memory = after.memory ∧
          after'.recovered = after.recovered ∧
          after'.out.taken = after.out.taken) ∧
      (k < bytes.size →
        ∃ executed' after',
          (s.into (some k)).Ends executed' (.error .output) after' ∧
          after'.out.taken = s.out.taken ++ bytes.extract 0 k ∧
          ∃ ds, after.skipped result = after'.takeDiagnostics.1 ++ ds) := by
  obtain ⟨fuel, final, halt, hended, rfl, hconclude⟩ := h
  obtain ⟨rfl, rfl⟩ := Prod.ext_iff.mp hconclude
  obtain ⟨count, hextends⟩ := Machine.exists_extends_of_advance_ended hended
  obtain ⟨bytes, hbytes⟩ := hextends.out_grows
  refine ⟨bytes, ?_, ?_, ?_⟩
  · rw [out_conclude]
    exact hbytes
  · intro hfits
    obtain ⟨final', hended', hnarrows⟩ :=
      (narrows_initial s k).ended_of_fits hended hbytes hfits
    obtain ⟨hresult, hmemory, hrecovered⟩ :=
      conclude_of_alike hnarrows.toAlike s.graph s.options s.options halt
    refine ⟨(conclude s.graph s.options halt final').2,
      ⟨fuel, final', halt, hended', hnarrows.steps_eq, Prod.ext hresult rfl⟩, hmemory,
      hrecovered, ?_⟩
    rw [out_conclude, out_conclude, hnarrows.out_eq]
  · intro hmore
    obtain ⟨cut, ds, hcut, htaken, hds⟩ :=
      (narrows_initial s k).refused_of_not_fits hended hbytes hmore
    refine ⟨cut.steps, _, ⟨fuel, cut, _, hcut, rfl, rfl⟩, htaken, ds, ?_⟩
    rw [skipped_conclude]
    exact hds

/-- A program that writes a line of four bytes. -/
def accent : Session :=
  .new (Program.parse "<start>[end]\x7bOUTPUT('hé')\x7d") .standard .unlimited .off

/-- An output with room for two bytes cuts the line inside its second character. -/
theorem accent_into_two :
    ∃ after,
      (accent.into none).Ends 1 (.ok ⟨1, "end", 0, #[]⟩) after ∧
      ∃ executed after',
        (accent.into (some 2)).Ends executed (.error .output) after' ∧
        after'.out.taken = ⟨#[104, 195]⟩ ∧
        after'.takeDiagnostics.1 = #[] := by
  have hresult :
      ((accent.into none).runWithin 2).map (fun r => (r.1, r.2.out.taken)) =
        some (.ok ⟨1, "end", 0, #[]⟩, "hé\n".toUTF8) := by
    decide +kernel
  obtain ⟨⟨result, after⟩, hrun, heq⟩ := Option.map_eq_some_iff.mp hresult
  obtain ⟨rfl, htaken⟩ := Prod.ext_iff.mp heq
  have hends := ends_of_runWithin_ok hrun
  obtain ⟨bytes, hbytes, -, hcut⟩ := ends_into_limited hends 2
  have hline : bytes = "hé\n".toUTF8 := by
    have hwhole : after.out.taken = ByteArray.empty ++ bytes := hbytes
    rw [ByteArray.empty_append] at hwhole
    exact hwhole.symm.trans htaken
  subst hline
  obtain ⟨executed, after', hends', htaken', ds, hds⟩ := hcut (by decide)
  refine ⟨after, hends, executed, after', hends', ?_, ?_⟩
  · rw [htaken']
    decide
  · exact (Array.append_eq_empty_iff.mp hds.symm).1

end Session
end Run
end GraphMachine
