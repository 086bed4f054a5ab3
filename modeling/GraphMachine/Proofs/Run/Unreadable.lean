import GraphMachine.Proofs.Run.Execution

/-!
# Operations that cannot be read

A node whose operation cannot be read is executed like a node without an operation, apart from the
note that is made of it.  So the operations of any such nodes can be removed from a graph: the run
goes along with the run of the smaller graph step by step, with the same memory and the same output,
and its notes are those of the other run without the ones about these nodes.
-/

namespace GraphMachine

namespace Node

/-- The node has an operation that cannot be read. -/
def Unreadable (n : Node) : Prop :=
  ∃ text err, n.operation = some text ∧ Operation.parse text = .error err

/-- The node without its operation, if its name is chosen. -/
def cleared (chosen : String → Bool) (n : Node) : Node :=
  if chosen n.name then { n with operation := none, operationSpan := none } else n

variable (chosen : String → Bool)
variable (n : Node)

@[simp] theorem name_cleared :
    (n.cleared chosen).name = n.name := by
  unfold cleared
  split <;> rfl

@[simp] theorem edges_cleared :
    (n.cleared chosen).edges = n.edges := by
  unfold cleared
  split <;> rfl

@[simp] theorem isCrowded_cleared :
    (n.cleared chosen).isCrowded = n.isCrowded := by
  simp [isCrowded, isTerminal]

@[simp] theorem next_cleared
    (answer : Option Bool) :
    (n.cleared chosen).next answer = n.next answer := by
  simp [next, isTerminal]

end Node

namespace Graph

/-- The graph without the operations of the nodes whose names are chosen. -/
def cleared (chosen : String → Bool) (g : Graph) : Graph :=
  ofList (g.nodes.map (Node.cleared chosen))

theorem get?_cleared
    (chosen : String → Bool)
    (g : Graph)
    (name : String) :
    (g.cleared chosen).get? name = (g.get? name).map (Node.cleared chosen) := by
  have hnodes := get?_ofList g.nodes name
  rw [ofList_nodes] at hnodes
  simp [cleared, get?_ofList, hnodes, ← List.map_reverse, List.find?_map]

end Graph

namespace Run

theorem traceLine_cleared
    (chosen : String → Bool)
    (n : Node)
    (step : Nat)
    (answer : Option Bool)
    (memory : Memory) :
    traceLine step (n.cleared chosen) answer memory = traceLine step n answer memory := by
  unfold traceLine
  rw [Node.name_cleared, Node.next_cleared]

/-- What a node comes to without an operation that cannot be read. -/
theorem attempt_cleared
    {chosen : String → Bool}
    {n : Node}
    (h : chosen n.name = true → n.Unreadable)
    (o : Options)
    (memory : Memory) :
    (attempt o (n.cleared chosen) memory).answer = (attempt o n memory).answer ∧
      (attempt o (n.cleared chosen) memory).memory = (attempt o n memory).memory ∧
      (attempt o (n.cleared chosen) memory).text = (attempt o n memory).text ∧
      ∀ step,
        (attempt o (n.cleared chosen) memory).diagnostics step (n.cleared chosen) =
          ((attempt o n memory).diagnostics step n).filter fun d => !chosen d.node := by
  cases hchosen : chosen n.name with
  | true =>
      obtain ⟨text, err, htext, hparse⟩ := h hchosen
      have hbefore : attempt o n memory = ⟨.error err, memory, ""⟩ := by
        simp [attempt, htext, hparse]
      have hafter : attempt o (n.cleared chosen) memory = ⟨.ok none, memory, ""⟩ := by
        simp [attempt, Node.cleared, hchosen]
      rw [hbefore, hafter]
      simp [Attempt.answer, Attempt.diagnostics, hchosen]
  | false =>
      have hsame : n.cleared chosen = n := by
        simp [Node.cleared, hchosen]
      rw [hsame]
      refine ⟨rfl, rfl, rfl, ?_⟩
      intro step
      unfold Attempt.diagnostics
      cases (attempt o n memory).result <;> simp [hchosen]

namespace Machine

/-- The second machine is the first one without the notes about the chosen nodes. -/
structure Forgets (chosen : String → Bool) (m m' : Machine) : Prop where
  memory_eq : m'.memory = m.memory
  out_eq : m'.out = m.out
  steps_eq : m'.steps = m.steps
  diagnostics_eq : m'.diagnostics = m.diagnostics.filter fun d => !chosen d.node
  current_eq : m'.current = m.current
  origin_eq : m'.origin = m.origin

section Forgetting

variable {chosen : String → Bool}
variable {g : Graph}
variable {o : Options}
variable {m m' : Machine}
variable {n : Node}

theorem Forgets.goTo
    (h : Forgets chosen m m')
    (name : String)
    (origin : Option String) :
    Forgets chosen { m with current := name, origin := origin }
      { m' with current := name, origin := origin } where
  memory_eq := h.memory_eq
  out_eq := h.out_eq
  steps_eq := h.steps_eq
  diagnostics_eq := h.diagnostics_eq
  current_eq := rfl
  origin_eq := rfl

/-- The same nodes are ahead, without their operations. -/
theorem Forgets.upcoming_eq
    (h : Forgets chosen m m')
    (g : Graph)
    (o : Options) :
    m'.upcoming (g.cleared chosen) o = (m.upcoming g o).map (Node.cleared chosen) := by
  unfold upcoming
  rw [h.steps_eq, h.current_eq, h.origin_eq, Graph.get?_cleared]
  cases exhausted? o m.steps with
  | some limit => rfl
  | none =>
      cases g.get? m.current with
      | none =>
          by_cases hend : m.current = Node.endName
          · simp only [Option.map_none, if_pos hend]
            rfl
          · simp only [Option.map_none, if_neg hend]
            rfl
      | some n =>
          by_cases hcrowded : n.isCrowded
          · simp [hcrowded, Except.map]
          · simp [hcrowded, Except.map]

theorem Forgets.stepText_eq
    (h : Forgets chosen m m')
    (hn : chosen n.name = true → n.Unreadable)
    (o : Options) :
    m'.stepText o (n.cleared chosen) = m.stepText o n := by
  obtain ⟨hanswer, hmemory, htext, -⟩ := attempt_cleared hn o m.memory
  unfold stepText traceText
  rw [h.memory_eq, h.steps_eq, hanswer, hmemory, htext, traceLine_cleared]

theorem Forgets.executed
    (h : Forgets chosen m m')
    (hn : chosen n.name = true → n.Unreadable)
    (o : Options)
    (log log' : Log) :
    Forgets chosen (m.executed o n log) (m'.executed o (n.cleared chosen) log') := by
  obtain ⟨-, hmemory, -, hdiagnostics⟩ := attempt_cleared hn o m.memory
  refine ⟨?_, ?_, ?_, ?_, h.current_eq, h.origin_eq⟩
  · simp only [Machine.executed, h.memory_eq, hmemory]
  · simp only [Machine.executed, h.out_eq, h.stepText_eq hn o]
  · simp only [Machine.executed, h.steps_eq]
  · simp only [Machine.executed, h.memory_eq, h.steps_eq, h.diagnostics_eq, hdiagnostics]
    exact (Array.filter_append Array.size_append).symm

/-- In one step both runs end in the same way before a node, or execute the same node. -/
theorem Forgets.paired_step
    (h : Forgets chosen m m')
    (hg : ∀ name n, g.get? name = some n → chosen name = true → n.Unreadable) :
    Progress.Paired (Forgets chosen) (m.step g o) (m'.step (g.cleared chosen) o) := by
  have hupcoming := h.upcoming_eq g o
  rcases m.step_cases g o with ⟨halt, hnext, hstep⟩ | ⟨n, log, hnext, hstep⟩
  · rw [hnext] at hupcoming
    rw [hstep, step_eq, hupcoming]
    exact .ended h
  · rw [hnext] at hupcoming
    have hget := get?_of_upcoming hnext
    have hn : chosen n.name = true → n.Unreadable := by
      rw [Graph.name_of_get? hget]
      exact hg m.current n hget
    obtain ⟨log', hvisit⟩ := m'.visit_eq o (n.cleared chosen)
    obtain ⟨hanswer, -, -, -⟩ := attempt_cleared hn o m.memory
    rw [hstep, step_eq, hupcoming]
    simp only [Except.map, hvisit, h.out_eq, h.memory_eq, h.stepText_eq hn o, hanswer]
    exact paired_proceed (n.name_cleared chosen) (n.next_cleared chosen _)
      (h.executed hn o log log') (h.executed hn o log log').goTo

end Forgetting

end Machine

namespace Session

/-- The same session without the operations of the nodes whose names are chosen. -/
def cleared (s : Session) (chosen : String → Bool) : Session :=
  { s with graph := s.graph.cleared chosen }

theorem paired_cleared
    {s : Session}
    {chosen : String → Bool}
    (hg : ∀ name n, s.graph.get? name = some n → chosen name = true → n.Unreadable)
    (fuel : Nat) :
    Progress.Paired (Machine.Forgets chosen) (s.progress fuel)
      ((s.cleared chosen).progress fuel) := by
  apply Machine.paired_advance
  · intro m m' h
    exact h.paired_step hg
  · exact ⟨rfl, rfl, rfl, rfl, rfl, rfl⟩

theorem conclude_of_forgets
    {chosen : String → Bool}
    {m m' : Machine}
    (h : m.Forgets chosen m')
    (g g' : Graph)
    (o : Options)
    (halt : Except RunError String) :
    (conclude g' o halt m').1 =
        (conclude g o halt m).1.map
          (fun r => { r with diagnostics := r.diagnostics.filter fun d => !chosen d.node }) ∧
      (conclude g' o halt m').2.recovered =
        (conclude g o halt m).2.recovered.filter fun d => !chosen d.node := by
  cases halt with
  | ok name =>
      simp [conclude, Except.map, h.steps_eq, h.memory_eq, h.diagnostics_eq]
  | error err =>
      simp [conclude, Except.map, h.diagnostics_eq]

/-- Operations that cannot be read do nothing.  If they are removed from some nodes, the program
ends with the same output and memory, and with the same result but for the notes about these nodes;
it ends without them exactly if it ends with them.  Also a run that does not end has the same output
and memory after each step. -/
theorem ends_cleared
    (s : Session)
    (chosen : String → Bool)
    (hg : ∀ name n, s.graph.get? name = some n → chosen name = true → n.Unreadable) :
    (∀ executed result after,
      s.Ends executed result after →
      ∃ after',
        (s.cleared chosen).Ends executed
          (result.map fun r =>
            { r with diagnostics := r.diagnostics.filter fun d => !chosen d.node }) after' ∧
        after'.out = after.out ∧
        after'.memory = after.memory ∧
        after'.recovered = after.recovered.filter fun d => !chosen d.node) ∧
    (∀ executed result' after',
      (s.cleared chosen).Ends executed result' after' →
      ∃ result after, s.Ends executed result after) ∧
    ∀ fuel,
      ((s.cleared chosen).progress fuel).machine.out = (s.progress fuel).machine.out ∧
      ((s.cleared chosen).progress fuel).machine.memory = (s.progress fuel).machine.memory := by
  refine ⟨?_, ?_, ?_⟩
  · rintro executed result after ⟨fuel, final, halt, hended, rfl, hconclude⟩
    obtain ⟨rfl, rfl⟩ := Prod.ext_iff.mp hconclude
    obtain ⟨final', hended', hforgets⟩ := (paired_cleared hg fuel).exists_ended hended
    obtain ⟨hresult, hrecovered⟩ :=
      conclude_of_forgets hforgets s.graph (s.cleared chosen).graph s.options halt
    refine ⟨_, ⟨fuel, final', halt, hended', hforgets.steps_eq, Prod.ext hresult rfl⟩, ?_, ?_,
      hrecovered⟩
    · rw [out_conclude, out_conclude, hforgets.out_eq]
    · rw [memory_conclude, memory_conclude, hforgets.memory_eq]
  · rintro executed result' after' ⟨fuel, final', halt, hended', rfl, -⟩
    obtain ⟨final, hended, hforgets⟩ := (paired_cleared hg fuel).swap.exists_ended hended'
    exact ⟨_, _, fuel, final, halt, hended, hforgets.steps_eq.symm, rfl⟩
  · intro fuel
    have hforgets := (paired_cleared hg fuel).machine
    exact ⟨hforgets.out_eq, hforgets.memory_eq⟩

/-- A program of three nodes, of which the first two have operations that cannot be read. -/
def twoUnreadable : Session :=
  .new
    (Program.parse
      "<start>[next]\x7bJUMP(4)\x7d\n<next>[last]\x7bSHIFT(x)\x7d\n<last>\x7bOUTPUT(\x7b\x7d)\x7d")
    .standard .unlimited .off

/-- Without the first operation the program has one note less, and writes the same. -/
theorem twoUnreadable_cleared :
    (∀ name n,
      twoUnreadable.graph.get? name = some n → (name == "start") = true → n.Unreadable) ∧
      ∃ after after',
        twoUnreadable.Ends 3
          (.ok ⟨3, "last", 0,
            #[⟨1, "start", some ⟨14, 21⟩, .unsupported "JUMP"⟩,
              ⟨2, "next", some ⟨36, 44⟩, .invalidArgument (.notAMove 'x')⟩]⟩) after ∧
        (twoUnreadable.cleared (· == "start")).Ends 3
          (.ok ⟨3, "last", 0,
            #[⟨2, "next", some ⟨36, 44⟩, .invalidArgument (.notAMove 'x')⟩]⟩) after' ∧
        after'.out = after.out := by
  have hunreadable :
      ∀ name n,
        twoUnreadable.graph.get? name = some n → (name == "start") = true → n.Unreadable := by
    intro name n hget hname
    obtain rfl : name = "start" := by simpa using hname
    have hoperation :
        (twoUnreadable.graph.get? "start").bind Node.operation = some "JUMP(4)" := by
      decide +kernel
    rw [hget] at hoperation
    exact ⟨_, .unsupported "JUMP", hoperation, by decide +kernel⟩
  have hresult :
      (twoUnreadable.runWithin 3).map Prod.fst =
        some (.ok ⟨3, "last", 0,
          #[⟨1, "start", some ⟨14, 21⟩, .unsupported "JUMP"⟩,
            ⟨2, "next", some ⟨36, 44⟩, .invalidArgument (.notAMove 'x')⟩]⟩) := by
    decide +kernel
  obtain ⟨⟨result, after⟩, hrun, rfl⟩ := Option.map_eq_some_iff.mp hresult
  have hends := ends_of_runWithin_ok hrun
  obtain ⟨after', hends', hout, -, -⟩ :=
    (ends_cleared twoUnreadable (· == "start") hunreadable).1 _ _ _ hends
  exact ⟨hunreadable, after, after', hends, hends', hout⟩

end Session
end Run
end GraphMachine
