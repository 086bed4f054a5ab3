import GraphMachine.Proofs.Program.Entries
import GraphMachine.Proofs.Run.Execution

/-!
# The order of declarations

A run looks nodes up by name and uses what their declarations say.  Where the declarations stand
comes up in one place only: a note about a skipped operation has the span of the operation.  So two
programs that say the same of every name run side by side, and their results differ in these spans
at most.
-/

namespace GraphMachine

namespace Node

section Entries

variable {n n' : Node}

theorem isCrowded_of_entry
    (h : n'.entry = n.entry) :
    n'.isCrowded = n.isCrowded := by
  obtain ⟨hname, hedges, -⟩ := Entry.mk.inj h
  simp only [isCrowded, isTerminal, hname, hedges]

theorem next_of_entry
    (h : n'.entry = n.entry)
    (answer : Option Bool) :
    n'.next answer = n.next answer := by
  obtain ⟨hname, hedges, -⟩ := Entry.mk.inj h
  unfold next isTerminal
  rw [hname, hedges]

end Entries

end Node

namespace Run

/-- The same note without the place of the operation. -/
def Diagnostic.unplaced (d : Diagnostic) : Diagnostic :=
  { d with span := none }

/-- The same report without the places of the operations that were skipped. -/
def Report.unplaced (r : Report) : Report :=
  { r with diagnostics := r.diagnostics.map Diagnostic.unplaced }

section Entries

variable {n n' : Node}

theorem attempt_of_entry
    (h : n'.entry = n.entry)
    (o : Options)
    (memory : Memory) :
    attempt o n' memory = attempt o n memory := by
  obtain ⟨-, -, hoperation⟩ := Entry.mk.inj h
  unfold attempt
  rw [hoperation]

theorem traceLine_of_entry
    (h : n'.entry = n.entry)
    (step : Nat)
    (answer : Option Bool)
    (memory : Memory) :
    traceLine step n' answer memory = traceLine step n answer memory := by
  have hname : n'.name = n.name := congrArg Entry.name h
  unfold traceLine
  rw [hname, Node.next_of_entry h]

theorem Attempt.diagnostics_of_entry
    (h : n'.entry = n.entry)
    (a : Attempt)
    (step : Nat) :
    (a.diagnostics step n').map Diagnostic.unplaced =
      (a.diagnostics step n).map Diagnostic.unplaced := by
  have hname : n'.name = n.name := congrArg Entry.name h
  unfold Attempt.diagnostics
  cases a.result with
  | ok answer => rfl
  | error err => simp [Diagnostic.unplaced, hname]

end Entries

namespace Machine

/-- Two machines that differ in the log and in the places of their notes at most. -/
structure Resembles (m m' : Machine) : Prop where
  memory_eq : m'.memory = m.memory
  out_eq : m'.out = m.out
  steps_eq : m'.steps = m.steps
  diagnostics_eq :
    m'.diagnostics.map Diagnostic.unplaced = m.diagnostics.map Diagnostic.unplaced
  current_eq : m'.current = m.current
  origin_eq : m'.origin = m.origin

section Resemblance

variable {g g' : Graph}
variable {o : Options}
variable {m m' : Machine}
variable {n n' : Node}

theorem Resembles.goTo
    (h : Resembles m m')
    (name : String)
    (origin : Option String) :
    Resembles { m with current := name, origin := origin }
      { m' with current := name, origin := origin } where
  memory_eq := h.memory_eq
  out_eq := h.out_eq
  steps_eq := h.steps_eq
  diagnostics_eq := h.diagnostics_eq
  current_eq := rfl
  origin_eq := rfl

/-- Nodes that say the same are ahead, or the same end. -/
theorem Resembles.map_upcoming
    (h : Resembles m m')
    (hg : g.SameEntries g')
    (o : Options) :
    (m'.upcoming g' o).map Node.entry = (m.upcoming g o).map Node.entry := by
  have hentry := hg m.current
  unfold upcoming
  rw [h.steps_eq, h.current_eq, h.origin_eq]
  cases exhausted? o m.steps with
  | some limit => rfl
  | none =>
      unfold Graph.entryOf? at hentry
      cases hget : g.get? m.current with
      | none =>
          rw [hget, Option.map_none, Option.map_eq_none_iff] at hentry
          rw [hentry]
      | some n =>
          rw [hget, Option.map_some, Option.map_eq_some_iff] at hentry
          obtain ⟨n', hget', hn'⟩ := hentry
          obtain ⟨hname, hedges, -⟩ := Entry.mk.inj hn'
          simp only [hget', Node.isCrowded_of_entry hn', hname, hedges]
          by_cases hcrowded : n.isCrowded
          · simp only [if_pos hcrowded, Except.map]
          · simp only [if_neg hcrowded, Except.map, hn']

theorem Resembles.stepText_eq
    (h : Resembles m m')
    (hn : n'.entry = n.entry)
    (o : Options) :
    m'.stepText o n' = m.stepText o n := by
  unfold stepText traceText
  rw [h.memory_eq, h.steps_eq, attempt_of_entry hn, traceLine_of_entry hn]

theorem Resembles.executed
    (h : Resembles m m')
    (hn : n'.entry = n.entry)
    (o : Options)
    (log log' : Log) :
    Resembles (m.executed o n log) (m'.executed o n' log') where
  memory_eq := by
    simp only [Machine.executed, h.memory_eq, attempt_of_entry hn]
  out_eq := by
    simp only [Machine.executed, h.out_eq, h.stepText_eq hn]
  steps_eq := by
    simp only [Machine.executed, h.steps_eq]
  diagnostics_eq := by
    simp only [Machine.executed, Array.map_append, h.memory_eq, h.steps_eq, h.diagnostics_eq,
      attempt_of_entry hn, Attempt.diagnostics_of_entry hn]
  current_eq := h.current_eq
  origin_eq := h.origin_eq

/-- In one step both runs end in the same way before a node, or execute nodes that say the same. -/
theorem Resembles.paired_step
    (h : Resembles m m')
    (hg : g.SameEntries g')
    (o : Options) :
    Progress.Paired Resembles (m.step g o) (m'.step g' o) := by
  have hupcoming := h.map_upcoming hg o
  rcases m.step_cases g o with ⟨halt, hnext, hstep⟩ | ⟨n, log, hnext, hstep⟩
  · rcases m'.step_cases g' o with ⟨halt', hnext', hstep'⟩ | ⟨n', log', hnext', -⟩
    · rw [hnext, hnext'] at hupcoming
      cases hupcoming
      rw [hstep, hstep']
      exact .ended h
    · rw [hnext, hnext'] at hupcoming
      cases hupcoming
  · rcases m'.step_cases g' o with ⟨halt', hnext', -⟩ | ⟨n', log', hnext', hstep'⟩
    · rw [hnext, hnext'] at hupcoming
      cases hupcoming
    · rw [hnext, hnext'] at hupcoming
      have hn : n'.entry = n.entry := Except.ok.inj hupcoming
      rw [hstep, hstep', h.memory_eq, h.out_eq, h.stepText_eq hn, attempt_of_entry hn]
      exact paired_proceed (congrArg Entry.name hn) (Node.next_of_entry hn _)
        (h.executed hn o log log') (h.executed hn o log log').goTo

end Resemblance

end Machine

/-- What a run gives and leaves, apart from its log. -/
structure Conclusion where
  result : Except RunError Report
  memory : Memory
  out : Sink
  recovered : Array Diagnostic

namespace Session

/-- What a run gives and leaves, without the places of the operations that it skipped. -/
def unplaced (r : Except RunError Report × Session) : Conclusion where
  result := r.1.map Report.unplaced
  memory := r.2.memory
  out := r.2.out
  recovered := r.2.recovered.map Diagnostic.unplaced

theorem unplaced_conclude
    {m m' : Machine}
    (h : m.Resembles m')
    (g g' : Graph)
    (o : Options)
    (halt : Except RunError String) :
    unplaced (conclude g' o halt m') = unplaced (conclude g o halt m) := by
  cases halt with
  | ok name =>
      simp [unplaced, conclude, Except.map, Report.unplaced, h.steps_eq, h.memory_eq, h.out_eq,
        h.diagnostics_eq]
  | error err =>
      simp [unplaced, conclude, Except.map, h.memory_eq, h.out_eq, h.diagnostics_eq]

section Runs

variable {g g' : Graph}

theorem paired_progress
    (hg : g.SameEntries g')
    (o : Options)
    (out : Sink)
    (log log' : Log)
    (fuel : Nat) :
    Progress.Paired Machine.Resembles ((new g o out log).progress fuel)
      ((new g' o out log').progress fuel) := by
  apply Machine.paired_advance
  · intro m m' h
    exact h.paired_step hg o
  · exact ⟨rfl, rfl, rfl, rfl, rfl, rfl⟩

theorem map_unplaced_runWithin
    (hg : g.SameEntries g')
    (o : Options)
    (out : Sink)
    (log log' : Log)
    (fuel : Nat) :
    ((new g' o out log').runWithin fuel).map unplaced =
      ((new g o out log).runWithin fuel).map unplaced := by
  have hpaired := paired_progress hg o out log log' fuel
  rw [runWithin_eq, runWithin_eq]
  generalize (new g o out log).progress fuel = p at hpaired ⊢
  generalize (new g' o out log').progress fuel = p' at hpaired ⊢
  cases hpaired with
  | running h => rfl
  | @ended m m' halt h => exact congrArg some (unplaced_conclude h g g' o halt)

end Runs

/-- The order of declarations has no part in runs.

* Two sources that say the same of every name run alike under all options and into every output:
  they give the same result and leave the same memory, output and notes, apart from the places of
  the operations that were skipped.  This holds within any number of steps, and in runs that go on
  output, memory and the number of steps are the same at any time.
* Parts of whole lines that declare different names say the same in any order.
* Whole lines can be left out if the lines after them declare all their names again. -/
theorem run_of_sameEntries :
    (∀ (first second : String) (o : Options) (out : Sink) (log log' : Log),
      (Program.parse first).SameEntries (Program.parse second) →
      (new (Program.parse second) o out log').run.map unplaced =
          (new (Program.parse first) o out log).run.map unplaced ∧
        ∀ fuel,
          ((new (Program.parse second) o out log').runWithin fuel).map unplaced =
            ((new (Program.parse first) o out log).runWithin fuel).map unplaced ∧
          ((new (Program.parse second) o out log').progress fuel).machine.out =
            ((new (Program.parse first) o out log).progress fuel).machine.out ∧
          ((new (Program.parse second) o out log').progress fuel).machine.memory =
            ((new (Program.parse first) o out log).progress fuel).machine.memory ∧
          ((new (Program.parse second) o out log').progress fuel).machine.steps =
            ((new (Program.parse first) o out log).progress fuel).machine.steps) ∧
    (∀ parts parts' : List String,
      parts.Perm parts' →
      (∀ part ∈ parts, Text.WholeLines part.toList) →
      (parts.flatMap fun part => (Program.parse part).names).Nodup →
      (Program.parse (String.join parts)).SameEntries (Program.parse (String.join parts'))) ∧
    ∀ above part below : String,
      Text.WholeLines above.toList →
      Text.WholeLines part.toList →
      (∀ name ∈ (Program.parse part).names, name ∈ (Program.parse below).names) →
      (Program.parse (above ++ (part ++ below))).SameEntries (Program.parse (above ++ below)) := by
  refine ⟨?_, ?_, ?_⟩
  · intro first second o out log log' hsame
    refine ⟨map_unplaced_runWithin hsame o out log log' o.horizon, ?_⟩
    intro fuel
    have hresembles := (paired_progress hsame o out log log' fuel).machine
    exact ⟨map_unplaced_runWithin hsame o out log log' fuel, hresembles.out_eq,
      hresembles.memory_eq, hresembles.steps_eq⟩
  · intro parts parts' hperm hwhole hnames
    exact Program.sameEntries_of_perm hperm hwhole hnames
  · intro above part below habove hpart hnames
    exact Program.sameEntries_append habove (Program.sameEntries_of_overridden hpart hnames)

def remark : String :=
  "# é\n"

def skipping : String :=
  "<start>[a]\x7bJUMP\x7d\n"

def writing : String :=
  "<a>\x7bOUTPUT(7)\x7d\n"

def outdated : String :=
  "<a>[start]\n"

/-- The session of a source before its first run. -/
def fresh (source : String) : Session :=
  .new (Program.parse source) .standard .unlimited .off

/-- Without the outdated declaration and with its lines in another order, the program runs alike,
though the operation that is skipped stands elsewhere. -/
theorem shuffled_lines_run_alike :
    [remark, writing, skipping].Perm [skipping, writing, remark] ∧
      (∀ part ∈ [remark, writing, skipping], Text.WholeLines part.toList) ∧
      ([remark, writing, skipping].flatMap fun part => (Program.parse part).names).Nodup ∧
      (∀ name ∈ (Program.parse outdated).names,
        name ∈ (Program.parse (String.join [writing, skipping])).names) ∧
      (fresh (String.join [skipping, writing, remark])).run.map unplaced =
        (fresh (remark ++ (outdated ++ String.join [writing, skipping]))).run.map unplaced ∧
      ((fresh (String.join [skipping, writing, remark])).runWithin 2).map
          (fun r => r.1.map Report.diagnostics) =
        some (.ok #[⟨1, "start", some ⟨11, 15⟩, .unsupported "JUMP"⟩]) ∧
      ((fresh (remark ++ (outdated ++ String.join [writing, skipping]))).runWithin 2).map
          (fun r => r.1.map Report.diagnostics) =
        some (.ok #[⟨1, "start", some ⟨42, 46⟩, .unsupported "JUMP"⟩]) := by
  obtain ⟨hruns, hreordered, hreduced⟩ := run_of_sameEntries
  have hperm : [remark, writing, skipping].Perm [skipping, writing, remark] := by decide
  have hwhole : ∀ part ∈ [remark, writing, skipping], Text.WholeLines part.toList := by decide
  have hnames :
      ([remark, writing, skipping].flatMap fun part => (Program.parse part).names).Nodup := by
    decide +kernel
  have hagain : ∀ name ∈ (Program.parse outdated).names,
      name ∈ (Program.parse (String.join [writing, skipping])).names := by
    decide +kernel
  have hshorter := hreduced remark outdated (String.join [writing, skipping]) (by decide)
    (by decide) hagain
  rw [← String.join_cons (s := remark)] at hshorter
  have hsame := hshorter.trans (hreordered _ _ hperm hwhole hnames)
  refine ⟨hperm, hwhole, hnames, hagain, (hruns _ _ .standard .unlimited .off .off hsame).1, ?_, ?_⟩
  · decide +kernel
  · decide +kernel

end Session
end Run
end GraphMachine
