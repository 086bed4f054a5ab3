import GraphMachine.Proofs.Run.Execution

/-!
# How runs end

A run stands at a node either because it starts there or because an edge of another node leads
there.  This invariant, `Machine.Arrived`, links the node, the node before it and the graph.  With
it the last step of a run says all about its end:

* a missing node is the start, or the edge of a declared node that the run has left;
* a node with too many edges is declared, and nothing of it was done;
* a run that succeeds is at `end` or at a node without edges.

So a graph whose edges all lead somewhere, `Graph.Closed`, has no run that misses a node or meets
too many edges.
-/

namespace GraphMachine

namespace Node

variable {n : Node}
variable {answer : Option Bool}
variable {name : String}

theorem isTerminal_iff :
    n.isTerminal = true ↔ n.name = endName := by
  simp [isTerminal]

theorem isCrowded_iff :
    n.isCrowded = true ↔ n.name ≠ endName ∧ maxEdges < n.edges.length := by
  simp [isCrowded, isTerminal]

/-- A successor is at the end of an edge, and `end` has none. -/
theorem mem_edges_of_next
    (h : n.next answer = some name) :
    n.name ≠ endName ∧ name ∈ n.edges := by
  unfold next at h
  split at h
  · cases h
  · next hterminal =>
      refine ⟨fun hend => hterminal (isTerminal_iff.mpr hend), ?_⟩
      cases hedges : n.edges with
      | nil =>
          rw [hedges] at h
          cases h
      | cons first rest =>
          cases rest with
          | nil =>
              rw [hedges] at h
              cases h
              exact List.mem_singleton_self _
          | cons second more =>
              rw [hedges] at h
              cases h
              split
              · exact List.mem_cons_self
              · exact List.mem_cons_of_mem _ List.mem_cons_self

theorem edges_of_next_eq_none
    (h : n.next answer = none) :
    n.name = endName ∨ n.edges = [] := by
  unfold next at h
  split at h
  · next hterminal =>
      exact .inl (isTerminal_iff.mp hterminal)
  · cases hedges : n.edges with
    | nil =>
        exact .inr rfl
    | cons first rest =>
        cases rest with
        | nil =>
            rw [hedges] at h
            cases h
        | cons second more =>
            rw [hedges] at h
            cases h

end Node

namespace Graph

/-- The start is declared, and every declared node but `end` has few enough edges, each of which
leads to a declared node or to `end`. -/
structure Closed (g : Graph) : Prop where
  start : (g.get? Node.startName).isSome
  edges : ∀ name n, g.get? name = some n → name ≠ Node.endName →
    n.edges.length ≤ Node.maxEdges ∧ ∀ e ∈ n.edges, e = Node.endName ∨ (g.get? e).isSome

/-- It is enough to look at the names of a graph. -/
theorem closed_iff
    {g : Graph} :
    g.Closed ↔
      (g.get? Node.startName).isSome ∧
      ∀ name ∈ g.names, ∀ n ∈ g.get? name, name ≠ Node.endName →
        n.edges.length ≤ Node.maxEdges ∧ ∀ e ∈ n.edges, e = Node.endName ∨ (g.get? e).isSome := by
  constructor
  · rintro ⟨hstart, hedges⟩
    exact ⟨hstart, fun name _ n hget => hedges name n hget⟩
  · rintro ⟨hstart, hedges⟩
    exact ⟨hstart, fun name n hget => hedges name (mem_names_of_get? hget) n hget⟩

instance (g : Graph) : Decidable g.Closed :=
  decidable_of_iff _ closed_iff.symm

end Graph

namespace Run
namespace Machine

/-- How a run comes to stand at a node. -/
inductive Arrived (g : Graph) : String → Option String → Prop
  | start : Arrived g Node.startName none
  | edge
      {name referrer : String}
      {n : Node}
      (hget : g.get? referrer = some n)
      (hreferrer : referrer ≠ Node.endName)
      (hfew : n.edges.length ≤ Node.maxEdges)
      (hmem : name ∈ n.edges) :
      Arrived g name (some referrer)

/-- What can be ahead of a run: the end of the run before the next node, or the node. -/
inductive Ahead (g : Graph) (m : Machine) : Except (Except RunError String) Node → Prop
  | limit
      {limit : Nat} :
      Ahead g m (.error (.error (.stepLimit limit m.current)))
  | undeclaredEnd :
      Ahead g m (.error (.ok Node.endName))
  | missing
      (hget : g.get? m.current = none)
      (hend : m.current ≠ Node.endName) :
      Ahead g m (.error (.error (.nodeNotFound m.current m.origin)))
  | crowded
      {n : Node}
      (hget : g.get? m.current = some n)
      (hend : m.current ≠ Node.endName)
      (hmany : Node.maxEdges < n.edges.length) :
      Ahead g m (.error (.error (.tooManyEdges m.current n.edges.length)))
  | node
      {n : Node}
      (hget : g.get? m.current = some n)
      (hfew : m.current ≠ Node.endName → n.edges.length ≤ Node.maxEdges) :
      Ahead g m (.ok n)

theorem ahead_upcoming
    (g : Graph)
    (o : Options)
    (m : Machine) :
    Ahead g m (m.upcoming g o) := by
  unfold upcoming
  cases exhausted? o m.steps with
  | some limit =>
      exact .limit
  | none =>
      cases hget : g.get? m.current with
      | none =>
          by_cases hend : m.current = Node.endName
          · simp only [if_pos hend]
            exact .undeclaredEnd
          · simp only [if_neg hend]
            exact .missing hget hend
      | some n =>
          have hname := Graph.name_of_get? hget
          by_cases hcrowded : n.isCrowded
          · simp only [if_pos hcrowded, hname]
            rw [Node.isCrowded_iff, hname] at hcrowded
            exact .crowded hget hcrowded.1 hcrowded.2
          · simp only [if_neg hcrowded]
            rw [Node.isCrowded_iff, hname, not_and, Nat.not_lt] at hcrowded
            exact .node hget hcrowded

section Proceeding

variable {n : Node}
variable {answer : Option Bool}
variable {taken : Bool}
variable {m m' : Machine}

theorem proceed_eq_running
    (h : m.proceed n answer taken = .running m') :
    n.next answer = some m'.current ∧ m'.origin = some n.name := by
  unfold proceed at h
  cases taken with
  | false =>
      cases h
  | true =>
      cases hnext : n.next answer with
      | none =>
          simp only [hnext, if_true] at h
          cases h
      | some name =>
          simp only [hnext, if_true] at h
          cases h
          exact ⟨rfl, rfl⟩

theorem proceed_eq_ended
    {halt : Except RunError String}
    (h : m.proceed n answer taken = .ended m' halt) :
    halt = .error .output ∨ (halt = .ok n.name ∧ n.next answer = none) := by
  unfold proceed at h
  cases taken with
  | false =>
      cases h
      exact .inl rfl
  | true =>
      cases hnext : n.next answer with
      | none =>
          simp only [hnext, if_true] at h
          cases h
          exact .inr ⟨rfl, rfl⟩
      | some name =>
          simp only [hnext, if_true] at h
          cases h

end Proceeding

section Runs

variable {g : Graph}
variable {o : Options}

/-- A step that goes on follows an edge of the node that it has executed. -/
theorem arrived_of_step_running
    {m m' : Machine}
    (h : m.step g o = .running m') :
    Arrived g m'.current m'.origin := by
  rcases m.step_cases g o with ⟨halt, -, hstep⟩ | ⟨n, log, hupcoming, hstep⟩
  · rw [hstep] at h
    cases h
  · rw [hstep] at h
    obtain ⟨hnext, horigin⟩ := proceed_eq_running h
    obtain ⟨hend, hmem⟩ := Node.mem_edges_of_next hnext
    have hahead := ahead_upcoming g o m
    rw [hupcoming] at hahead
    cases hahead with
    | node hget hfew =>
        rw [Graph.name_of_get? hget] at horigin hend
        rw [horigin]
        exact .edge hget hend (hfew hend) hmem

/-- Wherever a run stands, it has arrived there. -/
theorem arrived_of_advance_running
    {fuel : Nat}
    {m m' : Machine}
    (hm : Arrived g m.current m.origin)
    (h : m.advance g o fuel = .running m') :
    Arrived g m'.current m'.origin := by
  exact invariant_of_advance_running
    (fun _ _ _ hstep => arrived_of_step_running hstep) hm h

/-- In a closed graph a run stands at declared nodes and at `end` only. -/
theorem Arrived.isSome_of_closed
    {name : String}
    {origin : Option String}
    (h : Arrived g name origin)
    (hclosed : g.Closed) :
    name = Node.endName ∨ (g.get? name).isSome := by
  cases h with
  | start =>
      exact .inr hclosed.start
  | edge hget hreferrer _ hmem =>
      exact (hclosed.edges _ _ hget hreferrer).2 name hmem

end Runs

/-- How a run ends, seen from the machine before its last step. -/
inductive LastStep (g : Graph) (m : Machine) : Machine → Except RunError String → Prop
  | between
      {halt : Except RunError String}
      (hahead : Ahead g m (.error halt)) :
      LastStep g m m halt
  | halt
      {n : Node}
      {final : Machine}
      {answer : Option Bool}
      (hget : g.get? m.current = some n)
      (hnext : n.next answer = none) :
      LastStep g m final (.ok m.current)
  | refused
      {final : Machine} :
      LastStep g m final (.error .output)

theorem lastStep_of_step_ended
    {g : Graph}
    {o : Options}
    {m final : Machine}
    {halt : Except RunError String}
    (h : m.step g o = .ended final halt) :
    LastStep g m final halt := by
  have hahead := ahead_upcoming g o m
  rcases m.step_cases g o with ⟨halt', hupcoming, hstep⟩ | ⟨n, log, hupcoming, hstep⟩
  · rw [hstep] at h
    rw [hupcoming] at hahead
    cases h
    exact .between hahead
  · rw [hstep] at h
    rcases proceed_eq_ended h with rfl | ⟨rfl, hnext⟩
    · exact .refused
    · have hget := get?_of_upcoming hupcoming
      rw [Graph.name_of_get? hget]
      exact .halt hget hnext

section LastSteps

variable {g : Graph}
variable {m final : Machine}

theorem LastStep.missing
    {name : String}
    {origin : Option String}
    (h : LastStep g m final (.error (.nodeNotFound name origin))) :
    name = m.current ∧ origin = m.origin ∧ g.get? name = none ∧ name ≠ Node.endName := by
  cases h with
  | between hahead =>
      cases hahead with
      | missing hget hend =>
          exact ⟨rfl, rfl, hget, hend⟩

/-- Too many edges end a run before anything of the node is done. -/
theorem LastStep.crowded
    {node : String}
    {count : Nat}
    (h : LastStep g m final (.error (.tooManyEdges node count))) :
    final = m ∧
      node = m.current ∧
      ∃ n,
        g.get? node = some n ∧
        node ≠ Node.endName ∧
        n.edges.length = count ∧
        Node.maxEdges < count := by
  cases h with
  | between hahead =>
      cases hahead with
      | crowded hget hend hmany =>
          exact ⟨rfl, rfl, _, hget, hend, rfl, hmany⟩

theorem LastStep.halted
    {name : String}
    (h : LastStep g m final (.ok name)) :
    name = Node.endName ∨ ∃ n, g.get? name = some n ∧ n.edges = [] := by
  cases h with
  | between hahead =>
      cases hahead with
      | undeclaredEnd =>
          exact .inl rfl
  | halt hget hnext =>
      rcases Node.edges_of_next_eq_none hnext with hend | hedges
      · rw [Graph.name_of_get? hget] at hend
        exact .inl hend
      · exact .inr ⟨_, hget, hedges⟩

end LastSteps

end Machine

namespace Session

variable {s after : Session}
variable {executed : Nat}
variable {result : Except RunError Report}

/-- The machine before the last step of a run, with how it got there and how it ended. -/
theorem Ends.exists_lastStep
    (h : s.Ends executed result after) :
    ∃ m final halt,
      s.progress m.steps = .running m ∧
      Machine.Arrived s.graph m.current m.origin ∧
      Machine.LastStep s.graph m final halt ∧
      final.steps = executed ∧
      conclude s.graph s.options halt final = (result, after) := by
  obtain ⟨fuel, final, halt, hended, hsteps, hconclude⟩ := h
  obtain ⟨before, m, -, hbefore, hlast⟩ := Machine.exists_last_step hended
  have hprogress : s.progress before = .running m := hbefore
  have hm := steps_of_progress_running hprogress
  refine ⟨m, final, halt, by rw [hm, hprogress], ?_, Machine.lastStep_of_step_ended hlast, hsteps,
    hconclude⟩
  exact Machine.arrived_of_advance_running .start hbefore

/-- Errors of runs tell the truth, and can be avoided.

* If a node is missing that another one leads to, the other one is declared, is not `end` and has
  one or two edges; the missing node is one of them, is not declared and is not `end`.
* If a node is missing that no other one leads to, it is the start, which is not declared.
* A node with too many edges is declared, is not `end` and has as many edges as the error says.  All
  that the session has afterwards is what the machine had before that node.
* A run that succeeds halts at `end` or at a declared node without edges.
* In a closed graph no run misses a node or meets too many edges. -/
theorem Ends.explained
    (h : s.Ends executed result after) :
    (∀ name referrer,
      result = .error (.nodeNotFound name (some referrer)) →
      ∃ n,
        s.graph.get? referrer = some n ∧
        referrer ≠ Node.endName ∧
        (n.edges.length = 1 ∨ n.edges.length = 2) ∧
        name ∈ n.edges ∧
        s.graph.get? name = none ∧
        name ≠ Node.endName) ∧
    (∀ name,
      result = .error (.nodeNotFound name none) →
      name = Node.startName ∧ s.graph.get? Node.startName = none) ∧
    (∀ node count,
      result = .error (.tooManyEdges node count) →
      ∃ n m,
        s.graph.get? node = some n ∧
        node ≠ Node.endName ∧
        n.edges.length = count ∧
        2 < count ∧
        s.progress executed = .running m ∧
        m.current = node ∧
        after =
          ⟨s.graph, s.options, m.memory, m.diagnostics, m.out,
            m.log.add (.runFailed executed (.tooManyEdges node count))⟩) ∧
    (∀ report,
      result = .ok report →
      report.haltedAt = Node.endName ∨
        ∃ n, s.graph.get? report.haltedAt = some n ∧ n.edges = []) ∧
    (s.graph.Closed →
      (∀ name origin, result ≠ .error (.nodeNotFound name origin)) ∧
      ∀ node count, result ≠ .error (.tooManyEdges node count)) := by
  obtain ⟨m, final, halt, hprogress, harrived, hlast, rfl, hconclude⟩ := h.exists_lastStep
  obtain ⟨rfl, rfl⟩ := Prod.ext_iff.mp hconclude
  simp only [ne_eq, conclude_fst_eq_error_iff]
  refine ⟨?_, ?_, ?_, ?_, ?_⟩
  · rintro name referrer rfl
    obtain ⟨hname, horigin, hnone, hend⟩ := hlast.missing
    rw [← hname, ← horigin] at harrived
    -- The run has come from another node, so it has followed an edge.
    cases harrived with
    | @edge _ _ n hget hreferrer hfew hmem =>
        have hsome : 0 < n.edges.length := List.length_pos_of_mem hmem
        have htwo : n.edges.length ≤ 2 := hfew
        exact ⟨n, hget, hreferrer, by omega, hmem, hnone, hend⟩
  · rintro name rfl
    obtain ⟨hname, horigin, hnone, -⟩ := hlast.missing
    rw [← hname, ← horigin] at harrived
    cases harrived with
    | start =>
        exact ⟨rfl, hnone⟩
  · rintro node count rfl
    obtain ⟨rfl, rfl, n, hget, hend, hcount, hmany⟩ := hlast.crowded
    exact ⟨n, final, hget, hend, hcount, hmany, hprogress, rfl, rfl⟩
  · intro report hresult
    have hhalt := map_haltedAt_conclude s.graph s.options halt final
    rw [hresult] at hhalt
    subst hhalt
    exact hlast.halted
  · intro hclosed
    refine ⟨?_, ?_⟩
    · rintro name origin rfl
      obtain ⟨hname, -, hnone, hend⟩ := hlast.missing
      rw [← hname] at harrived
      rcases harrived.isSome_of_closed hclosed with heq | hsome
      · exact hend heq
      · rw [hnone] at hsome
        cases hsome
    · rintro node count rfl
      obtain ⟨-, -, n, hget, hend, hcount, hmany⟩ := hlast.crowded
      have hfew := (hclosed.edges node n hget hend).1
      omega

/-- A program that takes the second edge of a node whose test has no answer. -/
def detour : Session :=
  .new (Program.parse "<start>[a|end]\x7bCHECK(1)\x7d\n<a>[b|gone]\x7bCHECK(1 / 0)\x7d") .standard
    .unlimited .off

/-- A program that ends at a declared `end`, whose three edges are never followed. -/
def crossing : Graph :=
  Program.parse "<start>[end|start]\x7bCHECK\x7d\n<end>[x|y|z]"

/-- The one program misses a node to which an edge leads, and the other one never does. -/
theorem detour_misses_node :
    (∃ executed after n,
      detour.Ends executed (.error (.nodeNotFound "gone" (some "a"))) after ∧
      detour.graph.get? "a" = some n ∧
      "gone" ∈ n.edges ∧
      detour.graph.get? "gone" = none) ∧
    crossing.Closed ∧
    ∀ options out log executed after name origin,
      ¬ (Session.new crossing options out log).Ends executed
        (.error (.nodeNotFound name origin)) after := by
  have hclosed : crossing.Closed := by
    decide +kernel
  refine ⟨?_, hclosed, ?_⟩
  · have hresult :
        (detour.runWithin 3).map Prod.fst = some (.error (.nodeNotFound "gone" (some "a"))) := by
      decide +kernel
    obtain ⟨⟨result, after⟩, hrun, rfl⟩ := Option.map_eq_some_iff.mp hresult
    obtain ⟨executed, hends⟩ := exists_ends_of_runWithin hrun
    obtain ⟨n, hget, -, -, hmem, hnone, -⟩ := hends.explained.1 "gone" "a" rfl
    exact ⟨executed, after, n, hends, hget, hmem, hnone⟩
  · intro options out log executed after name origin hends
    exact (hends.explained.2.2.2.2 hclosed).1 name origin rfl

end Session
end Run
end GraphMachine
