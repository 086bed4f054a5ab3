import GraphMachine.Proofs.Run.WholeLines

/-!
# Debugging

With an output that never refuses, a run with lines for debugging and the same run without them go
along step by step.  They execute the same nodes, have the same memory and note the same skipped
operations, and they end in the same way.  The output of the one is the output of the other with
one more line after what each step writes.
-/

namespace GraphMachine
namespace Run

/-- What a step writes: the text of its operation, and its line for debugging. -/
structure Written where
  text : String
  trace : String

/-- What is seen of it with or without debugging. -/
def Written.shown (debug : Bool) (w : Written) : String :=
  w.text ++ if debug then w.trace else ""

def Progress.next? : Progress → Option String
  | running m => some m.current
  | ended _ _ => none

namespace Machine

@[simp] theorem next?_proceed
    (m : Machine)
    (n : Node)
    (answer : Option Bool) :
    (m.proceed n answer true).next? = n.next answer := by
  unfold proceed
  cases n.next answer <;> rfl

/-- The next step executes a node and writes this.  The line for debugging has the number of the
step, the node, the node to which the run goes on, the answer and the memory afterwards. -/
def Writes (g : Graph) (o : Options) (m : Machine) (w : Written) : Prop :=
  ∃ n,
    g.get? m.current = some n ∧
    n.next (m.answer o n) = (m.step g o).next? ∧
    (m.step g o).machine.out.taken = m.out.taken ++ (w.shown o.debug).toUTF8 ∧
    w.trace = traceLine (m.steps + 1) n (m.answer o n) (m.step g o).machine.memory

/-- What the steps of a run write, one after the other. -/
def WritesAll (g : Graph) (o : Options) (m : Machine) (ws : List Written) : Prop :=
  ∀ i w, ws[i]? = some w → ∃ p, m.advance g o i = .running p ∧ Writes g o p w

section Runs

variable {g : Graph}
variable {o : Options}
variable {m m' : Machine}

theorem writesAll_singleton
    {w : Written}
    (hw : Writes g o m w) :
    WritesAll g o m [w] := by
  intro i v hv
  cases i with
  | zero =>
      cases hv
      exact ⟨m, rfl, hw⟩
  | succ i =>
      cases hv

/-- What the first step writes, and what the run writes after it. -/
theorem WritesAll.cons
    {next : Machine}
    {w : Written}
    {ws : List Written}
    (hws : WritesAll g o next ws)
    (hstep : m.step g o = .running next)
    (hw : Writes g o m w) :
    WritesAll g o m (w :: ws) := by
  intro i v hv
  cases i with
  | zero =>
      cases hv
      exact ⟨m, rfl, hw⟩
  | succ i =>
      obtain ⟨p, hp, hwrites⟩ := hws i v hv
      refine ⟨p, ?_, hwrites⟩
      rw [advance_succ, hstep]
      exact hp

/-- In one step both runs end in the same way before a node, or execute the same node.  Then they
write the same, and one of them shows the line for debugging while the other one may not. -/
theorem Alike.step_cases
    (h : Alike m m')
    (hroom : m.out.room = none)
    (hroom' : m'.out.room = none)
    (debug debug' : Bool) :
    (∃ halt,
      m.step g (o.withDebug debug) = .ended m halt ∧
      m'.step g (o.withDebug debug') = .ended m' halt) ∨
      ∃ n answer w next next',
        Alike next next' ∧
        next.steps = m.steps + 1 ∧
        next.out = ⟨m.out.taken ++ (w.shown debug).toUTF8, none⟩ ∧
        next'.out = ⟨m'.out.taken ++ (w.shown debug').toUTF8, none⟩ ∧
        Writes g (o.withDebug debug) m w ∧
        m.step g (o.withDebug debug) = next.proceed n answer true ∧
        m'.step g (o.withDebug debug') = next'.proceed n answer true := by
  have hupcoming := h.upcoming_eq g o debug debug'
  rcases Machine.step_cases g (o.withDebug debug) m with
    ⟨halt, hnext, hstep⟩ | ⟨n, log, hnext, hstep⟩
  · refine .inl ⟨halt, hstep, ?_⟩
    rw [step_eq, hupcoming, hnext]
  · obtain ⟨log', hvisit⟩ := m'.visit_eq (o.withDebug debug') n
    have hwrite := Sink.write_of_room_none hroom (m.stepText (o.withDebug debug) n)
    have hwrite' := Sink.write_of_room_none hroom' (m'.stepText (o.withDebug debug') n)
    have htext' :
        m'.stepText (o.withDebug debug') n = m.stepText (o.withDebug debug') n := by
      unfold stepText traceText
      rw [h.memory_eq, h.steps_eq]
    rw [htext'] at hwrite'
    have hproceed :
        m.step g (o.withDebug debug) =
          (m.executed (o.withDebug debug) n log).proceed n (attempt o n m.memory).answer true := by
      rw [hstep, hwrite]
      rfl
    refine .inr ⟨n, (attempt o n m.memory).answer, ⟨(attempt o n m.memory).text, m.traceText o n⟩,
      m.executed (o.withDebug debug) n log, m'.executed (o.withDebug debug') n log',
      h.executed o debug debug' n log log', rfl, ?_, ?_, ⟨n, get?_of_upcoming hnext, ?_, ?_, ?_⟩,
      hproceed, ?_⟩
    · simp only [Machine.executed, hwrite]
      rfl
    · simp only [Machine.executed, htext', hwrite']
      rfl
    · rw [hproceed, next?_proceed, answer_eq]
      rfl
    · rw [hproceed, out_machine_proceed]
      simp only [Machine.executed, hwrite]
      rfl
    · rw [hproceed, memory_machine_proceed, answer_eq]
      rfl
    · rw [step_eq, hupcoming, hnext]
      simp only [hvisit, htext', hwrite', h.memory_eq]
      rfl

/-- If the one run ends, the other one ends in the same way, and both have written the same apart
from the lines for debugging. -/
theorem Alike.advance_debug
    {fuel : Nat}
    {final : Machine}
    {halt : Except RunError String}
    {debug : Bool}
    (h : Alike m m')
    (hroom : m.out.room = none)
    (hroom' : m'.out.room = none)
    (debug' : Bool)
    (hended : m.advance g (o.withDebug debug) fuel = .ended final halt) :
    ∃ final' ws,
      m'.advance g (o.withDebug debug') fuel = .ended final' halt ∧
      Alike final final' ∧
      final.steps = m.steps + ws.length ∧
      final.out.taken = m.out.taken ++ (String.join (ws.map (Written.shown debug))).toUTF8 ∧
      final'.out.taken = m'.out.taken ++ (String.join (ws.map (Written.shown debug'))).toUTF8 ∧
      WritesAll g (o.withDebug debug) m ws := by
  induction fuel generalizing m m' with
  | zero =>
      cases hended
  | succ fuel ih =>
      rw [advance_succ] at hended
      rcases h.step_cases (g := g) (o := o) hroom hroom' debug debug' with
        ⟨halt', hstep, hstep'⟩ |
          ⟨n, answer, w, next, next', halike, hsteps, hout, hout', hwrites, hstep, hstep'⟩
      · rw [hstep] at hended
        obtain ⟨rfl, rfl⟩ := Progress.ended.inj hended
        refine ⟨m', [], ?_, h, rfl, ?_, ?_, by simp [WritesAll]⟩
        · rw [advance_succ, hstep']
        · simp
        · simp
      · cases hnext : n.next answer with
        | none =>
            simp only [proceed, hnext, if_true] at hstep hstep'
            rw [hstep] at hended
            obtain ⟨rfl, rfl⟩ := Progress.ended.inj hended
            refine ⟨next', [w], ?_, halike, hsteps, ?_, ?_, writesAll_singleton hwrites⟩
            · rw [advance_succ, hstep']
            · simp [hout]
            · simp [hout']
        | some name =>
            simp only [proceed, hnext, if_true] at hstep hstep'
            rw [hstep] at hended
            obtain ⟨final', ws, hended', halike', hsteps', htaken, htaken', hall⟩ :=
              ih (halike.goTo name (some n.name)) (by rw [hout]) (by rw [hout']) hended
            refine ⟨final', w :: ws, ?_, halike', ?_, ?_, ?_, hall.cons hstep hwrites⟩
            · rw [advance_succ, hstep']
              exact hended'
            · simp only [hsteps', hsteps, List.length_cons]
              omega
            · simp [htaken, hout, String.join_cons, ByteArray.append_assoc]
            · simp [htaken', hout', String.join_cons, ByteArray.append_assoc]

end Runs

end Machine

namespace Session

def debugging (s : Session) (debug : Bool) : Session :=
  { s with options := s.options.withDebug debug }

/-- If a run ends with or without lines for debugging, it ends in the same way with or without
them. -/
theorem Ends.debugging
    {s after : Session}
    {debug : Bool}
    {executed : Nat}
    {result : Except RunError Report}
    (h : (s.debugging debug).Ends executed result after)
    (hroom : s.out.room = none)
    (debug' : Bool) :
    ∃ after' ws,
      (s.debugging debug').Ends executed result after' ∧
      after'.memory = after.memory ∧
      after'.recovered = after.recovered ∧
      ws.length = executed ∧
      after.out.taken = s.out.taken ++ (String.join (ws.map (Written.shown debug))).toUTF8 ∧
      after'.out.taken = s.out.taken ++ (String.join (ws.map (Written.shown debug'))).toUTF8 ∧
      Machine.WritesAll s.graph (s.options.withDebug debug) (.initial s.out s.log) ws := by
  obtain ⟨fuel, final, halt, hended, rfl, hconclude⟩ := h
  obtain ⟨rfl, rfl⟩ := Prod.ext_iff.mp hconclude
  have hself : Machine.Alike (.initial s.out s.log) (.initial s.out s.log) :=
    ⟨rfl, rfl, rfl, rfl, rfl⟩
  obtain ⟨final', ws, hended', halike, hsteps, htaken, htaken', hall⟩ :=
    hself.advance_debug hroom hroom debug' hended
  obtain ⟨hresult, hmemory, hrecovered⟩ := conclude_of_alike halike s.graph
    (s.options.withDebug debug) (s.options.withDebug debug') halt
  have hcount : final.steps = ws.length := by
    rw [hsteps]
    exact Nat.zero_add _
  refine ⟨(conclude s.graph (s.options.withDebug debug') halt final').2, ws,
    ⟨fuel, final', halt, hended', halike.steps_eq, Prod.ext hresult rfl⟩, hmemory, hrecovered,
    hcount.symm, ?_, ?_, hall⟩
  · rw [out_conclude]
    exact htaken
  · rw [out_conclude]
    exact htaken'

/-- The answer of a node in a line for debugging. -/
def answerText : Option Bool → String
  | none => "none"
  | some true => "true"
  | some false => "false"

theorem traceLine_eq
    (step : Nat)
    (n : Node)
    (answer : Option Bool)
    (memory : Memory) :
    traceLine step n answer memory =
      "[step " ++ step.repr ++ "] " ++ n.name ++ " -> " ++ (n.next answer).getD "halt" ++
        " | result: " ++ answerText answer ++ " | " ++ memory.snapshot ++ "\n" := by
  cases answer with
  | none => rfl
  | some b => cases b <;> rfl

/-- Lines for debugging change nothing else.  With an output that never refuses, a run ends with
them exactly if it ends without them, in the same way and with the same memory and the same skipped
operations.  Its output has one more line after what each step writes.  The line has the number of
the step, the node, the node at which the run goes on, the answer and the memory after the step; it
is a single line unless a name in the graph is not. -/
theorem debugging_only_adds_lines
    (s : Session)
    (hroom : s.out.room = none) :
    (∀ executed result traced,
      (s.debugging true).Ends executed result traced →
      ∃ plain, (s.debugging false).Ends executed result plain) ∧
    ∀ executed result plain,
      (s.debugging false).Ends executed result plain →
      ∃ (traced : Session) (steps : List Written),
        (s.debugging true).Ends executed result traced ∧
        traced.memory = plain.memory ∧
        traced.recovered = plain.recovered ∧
        steps.length = executed ∧
        plain.out.taken = s.out.taken ++ (String.join (steps.map Written.text)).toUTF8 ∧
        traced.out.taken =
          s.out.taken ++ (String.join (steps.map fun w => w.text ++ w.trace)).toUTF8 ∧
        ∀ i w, steps[i]? = some w →
          ∃ m n,
            (s.debugging false).progress i = .running m ∧
            s.graph.get? m.current = some n ∧
            n.next (m.answer s.options n) = ((s.debugging false).progress (i + 1)).next? ∧
            ((s.debugging false).progress (i + 1)).machine.out.taken =
              m.out.taken ++ w.text.toUTF8 ∧
            w.trace =
              "[step " ++ (i + 1).repr ++ "] " ++ n.name ++ " -> " ++
                (((s.debugging false).progress (i + 1)).next?.getD "halt") ++
                " | result: " ++ answerText (m.answer s.options n) ++ " | " ++
                ((s.debugging false).progress (i + 1)).machine.memory.snapshot ++ "\n" ∧
            (n.entry.OneLine → Text.Framed 1 w.trace) := by
  constructor
  · intro executed result traced h
    obtain ⟨plain, -, hplain, -⟩ := h.debugging hroom false
    exact ⟨plain, hplain⟩
  · intro executed result plain h
    obtain ⟨traced, steps, htraced, hmemory, hrecovered, hcount, htaken, htaken', hall⟩ :=
      h.debugging hroom true
    have hshown : Written.shown false = Written.text := by
      funext w
      exact String.append_empty
    rw [hshown] at htaken
    refine ⟨traced, steps, htraced, hmemory, hrecovered, hcount, htaken, htaken', ?_⟩
    intro i w hw
    obtain ⟨m, hm, n, hget, hnext, hout, htrace⟩ := hall i w hw
    have hsteps : m.steps = i := steps_of_progress_running (s := s.debugging false) hm
    have hstep :
        (s.debugging false).progress (i + 1) = m.step s.graph (s.options.withDebug false) :=
      progress_succ_eq_step hm
    have honeLine := oneLine_progress (s.debugging false) (i + 1)
    rw [hsteps] at htrace
    rw [hstep] at honeLine ⊢
    refine ⟨m, n, hm, hget, hnext, hshown ▸ hout, ?_, ?_⟩
    · have hanswer : m.answer (s.options.withDebug false) n = m.answer s.options n := rfl
      rw [htrace, traceLine_eq, hnext, hanswer]
    · intro hn
      rw [htrace]
      exact framed_traceLine hn honeLine _ _

/-- A program of two nodes, of which the second one writes. -/
def twoNodes : Session :=
  .new (Program.parse "<start>[a]\x7bSET(2)\x7d\n<a>\x7bOUTPUT(\x7b\x7d)\x7d") .standard .unlimited
    .off

/-- The program writes one line without debugging, and two more with it. -/
theorem twoNodes_debugging :
    twoNodes.out.room = none ∧
      ∃ (plain traced : Session) (steps : List Written),
        (twoNodes.debugging false).Ends 2 (.ok ⟨2, "a", 0, #[]⟩) plain ∧
        plain.out.taken = "2\n".toUTF8 ∧
        (twoNodes.debugging true).Ends 2 (.ok ⟨2, "a", 0, #[]⟩) traced ∧
        steps.map Written.trace =
          ["[step 1] start -> a | result: none | ptr=0 [0]=2\n",
            "[step 2] a -> halt | result: none | ptr=0 [0]=2\n"] ∧
        traced.out.taken =
          twoNodes.out.taken ++ (String.join (steps.map fun w => w.text ++ w.trace)).toUTF8 := by
  have hroom : twoNodes.out.room = none := rfl
  have hresult :
      ((twoNodes.debugging false).runWithin 2).map (fun r => (r.1, r.2.out.taken)) =
        some (.ok ⟨2, "a", 0, #[]⟩, "2\n".toUTF8) := by
    decide +kernel
  obtain ⟨⟨result, plain⟩, hrun, heq⟩ := Option.map_eq_some_iff.mp hresult
  obtain ⟨rfl, htaken⟩ := Prod.ext_iff.mp heq
  have hends := ends_of_runWithin_ok hrun
  obtain ⟨traced, steps, htraced, -, -, hcount, -, htaken', hsteps⟩ :=
    (debugging_only_adds_lines twoNodes hroom).2 _ _ _ hends
  obtain ⟨first, second, rfl⟩ := List.length_eq_two.mp hcount
  obtain ⟨m, n, hm, hget, -, -, hfirst, -⟩ := hsteps 0 first rfl
  obtain ⟨m', n', hm', hget', -, -, hsecond, -⟩ := hsteps 1 second rfl
  obtain rfl : ((twoNodes.debugging false).progress 0).machine = m := by rw [hm]; rfl
  obtain rfl : ((twoNodes.debugging false).progress 1).machine = m' := by rw [hm']; rfl
  have hstart :
      twoNodes.graph.get? ((twoNodes.debugging false).progress 0).machine.current =
        some ⟨"start", ["a"], some "SET(2)", 1, ⟨0, 18⟩, some ⟨11, 17⟩⟩ := by
    decide +kernel
  have hlast :
      twoNodes.graph.get? ((twoNodes.debugging false).progress 1).machine.current =
        some ⟨"a", [], some "OUTPUT(\x7b\x7d)", 2, ⟨19, 34⟩, some ⟨23, 33⟩⟩ := by
    decide +kernel
  obtain rfl := Option.some.inj (hstart.symm.trans hget)
  obtain rfl := Option.some.inj (hlast.symm.trans hget')
  refine ⟨hroom, plain, traced, [first, second], hends, htaken, htraced, ?_, htaken'⟩
  exact (congrArg₂ (fun a b => [a, b]) hfirst hsecond).trans (by decide +kernel)

end Session
end Run
end GraphMachine
