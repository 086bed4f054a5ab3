import GraphMachine.Proofs.Run.Endings
import GraphMachine.Proofs.Run.StepLimit
import GraphMachine.Proofs.Run.Visits

/-!
# Programs without cycles

An edge that a run follows leads from a declared node, which is not `end`, and the run goes on only
if it leads to a declared node.  So the nodes that a run executes form a path, and every node on it
leads, over one edge or more, to all nodes after it.  In a graph without cycles no node is then met
twice, and there are no more visits than nodes.
-/

namespace GraphMachine

namespace Graph

/-- An edge between declared nodes.  No run follows the edges of `end`. -/
structure Leads (g : Graph) (name next : String) : Prop where
  ne_end : name ≠ Node.endName
  edge : ∃ n, g.get? name = some n ∧ next ∈ n.edges
  declared : (g.get? next).isSome

/-- There is no way from a node back to itself. -/
def Acyclic (g : Graph) : Prop :=
  ∀ name, ¬ Relation.TransGen g.Leads name name

/-- A graph all of whose edges lead from lower to higher ranks has no cycle. -/
theorem acyclic_of_rank
    {g : Graph}
    (rank : String → Nat)
    (hrank : ∀ name ∈ g.names, ∀ n ∈ g.get? name, name ≠ Node.endName →
      ∀ e ∈ n.edges, (g.get? e).isSome → rank name < rank e) :
    g.Acyclic := by
  intro name hcycle
  have hedge : ∀ a b, g.Leads a b → rank a < rank b := by
    rintro a b ⟨hend, ⟨n, hget, hmem⟩, hdeclared⟩
    exact hrank a (mem_names_of_get? hget) n hget hend b hmem hdeclared
  have hlt : Relation.TransGen (· < ·) (rank name) (rank name) := hcycle.lift rank hedge
  rw [Relation.transGen_eq_self] at hlt
  exact Nat.lt_irrefl _ hlt

end Graph

namespace Run

/-- A step follows an edge of the graph, unless it goes astray. -/
theorem Machine.leads_of_step_running
    {g : Graph}
    {o : Options}
    {m m' : Machine}
    (h : m.step g o = .running m')
    (hdeclared : (g.get? m'.current).isSome) :
    g.Leads m.current m'.current := by
  rcases m.step_cases g o with ⟨halt, -, hstep⟩ | ⟨n, log, hupcoming, hstep⟩
  · rw [hstep] at h
    cases h
  · rw [hstep] at h
    obtain ⟨hnext, -⟩ := proceed_eq_running h
    obtain ⟨hend, hmem⟩ := Node.mem_edges_of_next hnext
    have hget := get?_of_upcoming hupcoming
    rw [Graph.name_of_get? hget] at hend
    exact ⟨hend, ⟨n, hget, hmem⟩, hdeclared⟩

/-- Each visit leads to all later ones and to the node at which the run stands, if there is one. -/
structure Follows (g : Graph) (vs : List Visit) (p : Progress) : Prop where
  ordered : vs.Pairwise fun v w => Relation.TransGen g.Leads v.node.name w.node.name
  ahead : ∀ m, p = .running m → (g.get? m.current).isSome →
    ∀ v ∈ vs, Relation.TransGen g.Leads v.node.name m.current

theorem Follows.visit
    {g : Graph}
    {o : Options}
    {vs : List Visit}
    {m : Machine}
    {n : Node}
    (hupcoming : m.upcoming g o = .ok n)
    (h : Follows g vs (.running m)) :
    Follows g (vs ++ [⟨m, n⟩]) (m.step g o) := by
  have hget := Machine.get?_of_upcoming hupcoming
  have hname := Graph.name_of_get? hget
  have hhere : (g.get? m.current).isSome := by
    rw [hget]
    rfl
  constructor
  case ordered =>
    refine List.pairwise_append.mpr ⟨h.ordered, List.pairwise_singleton _ _, ?_⟩
    intro v hv w hw
    obtain rfl := List.mem_singleton.mp hw
    rw [hname]
    exact h.ahead m rfl hhere v hv
  case ahead =>
    intro m' hrunning hdeclared v hv
    have hleads := Machine.leads_of_step_running hrunning hdeclared
    rcases List.mem_append.mp hv with hbefore | hlast
    · exact (h.ahead m rfl hhere v hbefore).tail hleads
    · obtain rfl := List.mem_singleton.mp hlast
      rw [hname]
      exact .single hleads

namespace Session

variable {s : Session}

theorem follows_visits
    (s : Session)
    (fuel : Nat) :
    Follows s.graph (s.visits fuel) (s.progress fuel) := by
  apply s.visits_induction (P := Follows s.graph)
  · exact ⟨.nil, by simp⟩
  · intro vs m halt h
    exact ⟨h.ordered, by simp⟩
  · intro vs m n _ hupcoming h
    exact h.visit hupcoming

theorem nodup_visits
    (hacyclic : s.graph.Acyclic)
    (fuel : Nat) :
    ((s.visits fuel).map fun v => v.node.name).Nodup := by
  refine List.pairwise_map.mpr ((s.follows_visits fuel).ordered.imp ?_)
  intro v w hleads heq
  rw [heq] at hleads
  exact hacyclic _ hleads

theorem names_visits_subset
    (s : Session)
    (fuel : Nat) :
    ((s.visits fuel).map fun v => v.node.name) ⊆ s.graph.names := by
  intro name hname
  obtain ⟨v, hv, rfl⟩ := List.mem_map.mp hname
  obtain ⟨i, hi⟩ := List.mem_iff_getElem?.mp hv
  have hget := (executes_of_getElem?_visits hi).declared
  rw [Graph.name_of_get? hget]
  exact Graph.mem_names_of_get? hget

/-- There are no more visits than nodes. -/
theorem length_visits_le
    (hacyclic : s.graph.Acyclic)
    (fuel : Nat) :
    (s.visits fuel).length ≤ s.graph.size := by
  have hle := ((nodup_visits hacyclic fuel).subperm (s.names_visits_subset fuel)).length_le
  rwa [List.length_map, Graph.length_names] at hle

/-- So a run is over one step after it can have executed all nodes. -/
theorem exists_ended_of_acyclic
    (hacyclic : s.graph.Acyclic) :
    ∃ final halt,
      s.progress (s.graph.size + 1) = .ended final halt ∧ final.steps ≤ s.graph.size := by
  have hle := length_visits_le hacyclic (s.graph.size + 1)
  rw [length_visits] at hle
  cases hprogress : s.progress (s.graph.size + 1) with
  | ended final halt =>
      rw [hprogress] at hle
      exact ⟨final, halt, rfl, hle⟩
  | running m =>
      rw [hprogress] at hle
      have hsteps := steps_of_progress_running hprogress
      simp only [Progress.machine] at hle
      omega

/-- A node that is executed has its place among the visits up to a later one. -/
theorem Executes.getElem?_visits
    {i j : Nat}
    {m m' : Machine}
    {n n' : Node}
    (hi : s.Executes i m n)
    (hj : s.Executes j m' n')
    (hle : i ≤ j) :
    (s.visits (j + 1))[i]? = some ⟨m, n⟩ := by
  have hlt : i < (s.visits (j + 1)).length := by
    rw [length_visits, hj.counted]
    omega
  rw [Session.getElem?_visits hlt]
  exact visit?_eq_some_iff.mpr hi

theorem Executes.eq_of_acyclic
    {i j : Nat}
    {m m' : Machine}
    {n n' : Node}
    (hacyclic : s.graph.Acyclic)
    (hi : s.Executes i m n)
    (hj : s.Executes j m' n')
    (hname : n.name = n'.name) :
    i = j := by
  wlog hle : i ≤ j generalizing i j m m' n n'
  · exact (this hj hi hname.symm (by omega)).symm
  have hnames :
      ((s.visits (j + 1)).map fun v => v.node.name)[i]? =
        ((s.visits (j + 1)).map fun v => v.node.name)[j]? := by
    rw [List.getElem?_map, List.getElem?_map, hi.getElem?_visits hj hle,
      hj.getElem?_visits hj (Nat.le_refl j)]
    simpa using hname
  have hlt : i < ((s.visits (j + 1)).map fun v => v.node.name).length := by
    rw [List.length_map, length_visits, hj.counted]
    omega
  exact (List.getElem?_inj hlt (nodup_visits hacyclic _)).mp hnames

/-- Limits that a run does not come to make no difference to its result. -/
theorem run_limitedTo_of_ended
    {fuel limit : Nat}
    {final : Machine}
    {halt : Except RunError String}
    (h : (s.limitedTo none).progress fuel = .ended final halt)
    (hle : fuel ≤ limit) :
    ∃ after',
      (s.limitedTo (some limit)).run =
        some ((conclude s.graph (s.limitedTo none).options halt final).1, after') := by
  have hagree : (s.limitedTo (some limit)).progress fuel = (s.limitedTo none).progress fuel :=
    progress_limitedTo_eq (by simpa using hle) (by simp)
  rw [h] at hagree
  have hrun := run_of_ends (ends_of_progress hagree)
  rw [conclude_fst_eq _ _ _ _ (s.limitedTo none).options] at hrun
  exact ⟨_, hrun⟩

theorem not_stepLimit_of_unlimited
    {fuel : Nat}
    {final : Machine}
    {halt : Except RunError String}
    (h : (s.limitedTo none).progress fuel = .ended final halt)
    (k : Nat)
    (node : String) :
    halt ≠ .error (.stepLimit k node) := by
  have hunlimited :
      ∀ k ∈ (s.limitedTo none).options.maxSteps,
        (Machine.initial s.out s.log).steps + fuel ≤ k := by
    simp [limitedTo, Options.withLimit]
  exact (Machine.not_stepLimit_of_advance_ended hunlimited h).1 k node

/-- Programs without cycles end.  If the edges of the declared nodes other than `end` form no cycle
among the declared nodes, the run without a limit ends, executes no node twice and so no more nodes
than there are, and no limit beyond their number is exceeded: all of them leave the result as it
is. -/
theorem ends_of_acyclic
    (s : Session)
    (hacyclic : s.graph.Acyclic) :
    ∃ executed result after,
      (s.limitedTo none).runWithin (s.graph.size + 1) = some (result, after) ∧
      (s.limitedTo none).Ends executed result after ∧
      executed ≤ s.graph.size ∧
      (∀ i j m m' n n',
        (s.limitedTo none).Executes i m n →
        (s.limitedTo none).Executes j m' n' →
        n.name = n'.name →
        i = j) ∧
      (∀ limit node, result ≠ .error (.stepLimit limit node)) ∧
      ∀ limit, s.graph.size < limit →
        ∃ after', (s.limitedTo (some limit)).run = some (result, after') := by
  have hacyclic' : (s.limitedTo none).graph.Acyclic := hacyclic
  obtain ⟨final, halt, hended, hle⟩ := exists_ended_of_acyclic hacyclic'
  refine ⟨_, _, _, ?_, ends_of_progress hended, hle, ?_, ?_, ?_⟩
  · change (s.limitedTo none).runWithin ((s.limitedTo none).graph.size + 1) = _
    rw [runWithin_eq, hended]
  · intro i j m m' n n' hi hj hname
    exact hi.eq_of_acyclic hacyclic' hj hname
  · intro limit node hresult
    rw [conclude_fst_eq_error_iff] at hresult
    exact not_stepLimit_of_unlimited hended limit node hresult
  · intro limit hlimit
    exact run_limitedTo_of_ended hended hlimit

/-- A program that branches, joins again and comes to `end`, from where an edge leads back. -/
def diamond : Session :=
  .new
    (Program.parse
      "<start>[left|right]\x7bCHECK(0)\x7d\n<left>[join]\n<right>[join]\n<join>[end]\n<end>[start]")
    .standard .unlimited .off

/-- The edge of `end` closes no cycle, and of the two branches only one is taken. -/
theorem diamond_ends :
    diamond.graph.Acyclic ∧
      diamond.graph.size = 5 ∧
      ∃ after after',
        (diamond.limitedTo none).Ends 4 (.ok ⟨4, "end", 0, #[]⟩) after ∧
        (diamond.limitedTo (some 6)).run = some (.ok ⟨4, "end", 0, #[]⟩, after') := by
  have hacyclic : diamond.graph.Acyclic :=
    Graph.acyclic_of_rank (fun name => diamond.graph.names.idxOf name) (by decide +kernel)
  have hresult :
      ((diamond.limitedTo none).runWithin (diamond.graph.size + 1)).map Prod.fst =
        some (.ok ⟨4, "end", 0, #[]⟩) := by
    decide +kernel
  obtain ⟨executed, result, after, hrun, -, -, -, -, hlimits⟩ := ends_of_acyclic diamond hacyclic
  rw [hrun] at hresult
  cases hresult
  have hsize : diamond.graph.size = 5 := by
    decide +kernel
  obtain ⟨after', hrun'⟩ := hlimits 6 (by omega)
  exact ⟨hacyclic, hsize, after, after', ends_of_runWithin_ok hrun, hrun'⟩

end Session
end Run
end GraphMachine
