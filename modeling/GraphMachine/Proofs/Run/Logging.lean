import GraphMachine.Proofs.Operation.Frame
import GraphMachine.Proofs.Program.Logging
import GraphMachine.Proofs.Run.Visits

/-!
# What is logged about a run

A run logs what it does at each node: what comes of the operation, and then the step, with its
number.  So the log of a run is the log before it, followed by the events of all its visits, one
after the other.

Two kinds of events tell how the run went.  There is a warning for each operation that was skipped,
as there is a note of it among the diagnostics.  And there is a step for each visit, except for a
last one at which the output refuses the line that the node writes.
-/

namespace GraphMachine

namespace Log

variable {log : Log}

theorem addAll_append
    (log : Log)
    (es fs : List Event) :
    log.addAll (es ++ fs) = (log.addAll es).addAll fs :=
  List.foldl_append

theorem add_of_enabled
    (h : log.enabled = true)
    (e : Event) :
    log.add e = ⟨true, log.events.push e⟩ := by
  simp [add, h]

/-- A log that is switched on keeps everything in order. -/
theorem addAll_of_enabled
    (h : log.enabled = true)
    (es : List Event) :
    log.addAll es = ⟨true, log.events ++ es.toArray⟩ := by
  induction es generalizing log with
  | nil =>
      obtain ⟨enabled, events⟩ := log
      obtain rfl : enabled = true := h
      simp [addAll]
  | cons e es ih =>
      rw [addAll, List.foldl_cons, add_of_enabled h]
      change addAll _ es = _
      rw [ih rfl]
      simp

end Log

namespace Run

/-- The messages about an operation that is done. -/
def detailMessages : List String :=
  ["dispatch", "set", "check", "shift"]

/-- What is logged about an operation that is skipped. -/
def Attempt.warnings (a : Attempt) (n : Node) : List Event :=
  match a.result with
  | .ok _ => []
  | .error err => [.operationSkipped n.name n.line err]

theorem message_mem_of_mem_notes
    {m : Memory}
    {op : Operation}
    {eff : Effect}
    {e : Event}
    (h : e ∈ op.notes m eff) :
    e.message ∈ detailMessages := by
  cases eff with
  | store target value =>
      obtain ⟨-, rfl⟩ : op.keyword = .set ∧ e = .stored target value := by
        simpa [Operation.notes] using h
      change "set" ∈ detailMessages
      decide
  | print line => cases h
  | answer result =>
      obtain rfl : e = .checked result := List.mem_singleton.mp h
      change "check" ∈ detailMessages
      decide
  | move delta =>
      obtain rfl : e = .shifted delta m.pointer := List.mem_singleton.mp h
      change "shift" ∈ detailMessages
      decide

/-- Apart from details, an operation is logged if it is skipped. -/
theorem filter_events_perform
    {message : String}
    (hmessage : message ∉ detailMessages)
    (o : Options)
    (n : Node)
    (memory : Memory)
    (out : Sink) :
    (perform o n memory out).events.filter (Event.hasMessage message) =
      ((attempt o n memory).warnings n).filter (Event.hasMessage message) := by
  have hdetail (e : Event) (he : e.message ∈ detailMessages) : e.hasMessage message = false :=
    beq_false_of_ne fun heq => hmessage (heq ▸ he)
  have hnotes (op : Operation) (m : Memory) (eff : Effect) :
      (op.notes m eff).filter (Event.hasMessage message) = [] :=
    List.filter_eq_nil_iff.mpr fun e he => by simp [hdetail e (message_mem_of_mem_notes he)]
  cases hoperation : n.operation with
  | none =>
      simp [perform_eq_effect, attempt, Attempt.warnings, hoperation]
  | some text =>
      cases hparse : Operation.parse text with
      | error err =>
          simp [perform_eq_effect, attempt, Attempt.warnings, hoperation, hparse]
      | ok op =>
          have hdispatch : (Event.dispatched op.keyword).hasMessage message = false :=
            hdetail _ (by decide : "dispatch" ∈ detailMessages)
          cases heffect : op.effect ⟨memory, o.mode⟩ o.maxDepth with
          | error err =>
              simp [perform_eq_effect, attempt, Attempt.warnings, hoperation, hparse,
                heffect, hdispatch]
          | ok eff =>
              simp only [perform_eq_effect, attempt, Attempt.warnings, hoperation, hparse,
                heffect]
              rcases out.write eff.output with ⟨fits, written⟩
              cases fits with
              | true => simp [hdispatch, hnotes]
              | false => simp [hdispatch]

/-- The output refuses the line that an output writes. -/
def Visit.Refused (o : Options) (v : Visit) : Prop :=
  ∃ text op,
    v.node.operation = some text ∧
    Operation.parse text = .ok op ∧
    op.keyword = .output ∧
    (Operation.perform text ⟨v.machine.memory, o.mode⟩ o.maxDepth v.machine.out).result =
      .error .output

theorem outcome_eq_refused_iff
    {o : Options}
    {v : Visit} :
    (perform o v.node v.machine.memory v.machine.out).outcome = .refused ↔ v.Refused o := by
  unfold Visit.Refused
  cases hoperation : v.node.operation with
  | none =>
      simp [perform_eq_effect, hoperation]
  | some text =>
      cases hparse : Operation.parse text with
      | error err =>
          simp [perform_eq_effect, hoperation, hparse]
      | ok op =>
          cases heffect : op.effect ⟨v.machine.memory, o.mode⟩ o.maxDepth with
          | error err =>
              simp [perform_eq_effect, hoperation, hparse, Operation.perform_eq,
                Operation.execute_eq, heffect]
          | ok eff =>
              rcases hwrite : v.machine.out.write eff.output with ⟨fits, written⟩
              cases fits with
              | true =>
                  simp [perform_eq_effect, hoperation, hparse, Operation.perform_eq,
                    Operation.execute_eq, heffect, hwrite]
              | false =>
                  have hkeyword : op.keyword = .output := by
                    by_contra hne
                    rw [Operation.output_eq_empty heffect hne, Sink.write_empty] at hwrite
                    cases hwrite
                  simp [perform_eq_effect, hoperation, hparse, Operation.perform_eq,
                    Operation.execute_eq, heffect, hwrite, hkeyword]

namespace Visit

/-- The event of the step that a visit is, with a number. -/
def stepEvent (o : Options) (v : Visit) (number : Nat) : Event :=
  .stepped number v.node.name (v.machine.answer o v.node)
    (v.node.next (v.machine.answer o v.node))

/-- What a visit logs about the step. -/
def stepEvents (o : Options) (v : Visit) : List Event :=
  if (perform o v.node v.machine.memory v.machine.out).outcome = .refused then
    []
  else
    [v.stepEvent o (v.machine.steps + 1)]

/-- All that a visit logs. -/
def events (o : Options) (v : Visit) : List Event :=
  (perform o v.node v.machine.memory v.machine.out).events ++ v.stepEvents o

theorem stepEvents_of_refused
    {o : Options}
    {v : Visit}
    (h : v.Refused o) :
    v.stepEvents o = [] :=
  if_pos (outcome_eq_refused_iff.mpr h)

theorem stepEvents_of_not_refused
    {o : Options}
    {v : Visit}
    (h : ¬ v.Refused o) :
    v.stepEvents o = [v.stepEvent o (v.machine.steps + 1)] :=
  if_neg (mt outcome_eq_refused_iff.mp h)

theorem filter_skipped_events
    (o : Options)
    (v : Visit) :
    (v.events o).filter (Event.hasMessage "operation skipped") =
      (attempt o v.node v.machine.memory).warnings v.node := by
  have hwarnings :
      ((attempt o v.node v.machine.memory).warnings v.node).filter
        (Event.hasMessage "operation skipped") =
          (attempt o v.node v.machine.memory).warnings v.node := by
    unfold Attempt.warnings
    cases (attempt o v.node v.machine.memory).result <;> rfl
  have hstep : (v.stepEvents o).filter (Event.hasMessage "operation skipped") = [] := by
    unfold stepEvents
    split <;> rfl
  rw [events, List.filter_append, filter_events_perform (by decide), hwarnings, hstep,
    List.append_nil]

theorem filter_step_events
    (o : Options)
    (v : Visit) :
    (v.events o).filter (Event.hasMessage "step") = v.stepEvents o := by
  have hwarnings :
      ((attempt o v.node v.machine.memory).warnings v.node).filter (Event.hasMessage "step") =
        [] := by
    unfold Attempt.warnings
    cases (attempt o v.node v.machine.memory).result <;> rfl
  have hstep : (v.stepEvents o).filter (Event.hasMessage "step") = v.stepEvents o := by
    unfold stepEvents
    split <;> rfl
  rw [events, List.filter_append, filter_events_perform (by decide), hwarnings, hstep,
    List.nil_append]

end Visit

namespace Machine

theorem log_machine_leave
    (o : Options)
    (n : Node)
    (answer : Option Bool)
    (m : Machine) :
    (m.leave o n answer).machine.log =
      m.log.add (.stepped m.steps n.name answer (n.next answer)) := by
  obtain ⟨memory, out, steps, diagnostics, log, current, origin⟩ := m
  unfold leave
  simp only
  generalize (if o.debug then out.write (traceLine steps n answer memory) else (true, out)) = w
  obtain ⟨taken, written⟩ := w
  cases taken with
  | false => rfl
  | true => cases n.next answer <;> rfl

section Steps

variable {g : Graph}
variable {o : Options}
variable {m : Machine}
variable {n : Node}

theorem step_of_upcoming
    (hnext : m.upcoming g o = .ok n) :
    m.step g o = m.visit o n := by
  rw [step_eq, hnext]

/-- A step that executes a node logs what the visit logs. -/
theorem log_machine_step
    (hnext : m.upcoming g o = .ok n) :
    (m.step g o).machine.log = m.log.addAll (Visit.events o ⟨m, n⟩) := by
  rw [step_of_upcoming hnext]
  obtain ⟨memory, out, steps, diagnostics, log, current, origin⟩ := m
  unfold visit Visit.events Visit.stepEvents Visit.stepEvent answer
  simp only
  rcases perform o n memory out with ⟨outcome, after, written, events⟩
  cases outcome with
  | answered answer =>
      simp only [log_machine_leave, Log.addAll_append]
      rfl
  | skipped err =>
      simp only [log_machine_leave, Log.addAll_append]
      rfl
  | refused =>
      simp [Progress.machine]

theorem diagnostics_machine_step
    (hnext : m.upcoming g o = .ok n) :
    (m.step g o).machine.diagnostics =
      m.diagnostics ++ (attempt o n m.memory).diagnostics (m.steps + 1) n := by
  obtain ⟨log, hvisit⟩ := m.visit_eq o n
  rw [step_of_upcoming hnext, hvisit, diagnostics_machine_proceed]
  rfl

/-- The run is over after an output that is refused. -/
theorem step_of_refused
    (hnext : m.upcoming g o = .ok n)
    (h : Visit.Refused o ⟨m, n⟩) :
    ∃ final, m.step g o = .ended final (.error .output) := by
  have hrefused := outcome_eq_refused_iff.mpr h
  rw [step_of_upcoming hnext]
  obtain ⟨memory, out, steps, diagnostics, log, current, origin⟩ := m
  simp only [visit] at hrefused ⊢
  rw [hrefused]
  exact ⟨_, rfl⟩

end Steps

end Machine

namespace Session

/-- A warning that says the same as a note about a skipped operation, with the line of the node. -/
def Reports (g : Graph) (e : Event) (d : Diagnostic) : Prop :=
  ∃ n,
    g.get? d.node = some n ∧
    e = .operationSkipped d.node n.line d.error ∧
    e.shown =
      (.warn, "operation skipped",
        [("node", d.node), ("line", Decimal.ofNat n.line), ("error", d.error.message)])

/-- The visits that are logged as steps: all of them, except for a last one whose output is
refused. -/
inductive Stepped (o : Options) : List Visit → List Visit → Prop
  | all
      {vs : List Visit}
      (h : ∀ v ∈ vs, ¬ v.Refused o) :
      Stepped o vs vs
  | butLast
      {vs : List Visit}
      {v : Visit}
      (h : ∀ w ∈ vs, ¬ w.Refused o)
      (hlast : v.Refused o) :
      Stepped o (vs ++ [v]) vs

/-- The log of a run says of each node that is executed what it is. -/
structure MirrorsRun (s : Session) (vs : List Visit) (ds : List Diagnostic) (events : List Event) :
    Prop where
  executes : ∀ i v, vs[i]? = some v → s.Executes i v.machine v.node
  skipped :
    List.Forall₂ (Reports s.graph) (events.filter (Event.hasMessage "operation skipped")) ds
  steps :
    ∃ stepped,
      Stepped s.options vs stepped ∧
      events.filter (Event.hasMessage "step") =
        (stepped.zipIdx 1).map fun l => l.1.stepEvent s.options l.2

/-- The log of a run has the events of its visits, one visit after the other. -/
theorem log_progress
    (s : Session)
    (fuel : Nat) :
    (s.progress fuel).machine.log =
      s.log.addAll ((s.visits fuel).flatMap (Visit.events s.options)) := by
  apply s.visits_induction (P := fun vs p =>
    p.machine.log = s.log.addAll (vs.flatMap (Visit.events s.options)))
  case hstart =>
    rfl
  case hhalt =>
    intro vs m halt h
    exact h
  case hvisit =>
    intro vs m n _ hnext h
    rw [Machine.log_machine_step hnext, List.flatMap_append, Log.addAll_append, ← h,
      List.flatMap_singleton]
    rfl

/-- There is a warning for each note. -/
theorem forall₂_reports_progress
    (s : Session)
    (fuel : Nat) :
    List.Forall₂ (Reports s.graph)
      (((s.visits fuel).flatMap (Visit.events s.options)).filter
        (Event.hasMessage "operation skipped"))
      (s.progress fuel).machine.diagnostics.toList := by
  apply s.visits_induction (P := fun vs p =>
    List.Forall₂ (Reports s.graph)
      ((vs.flatMap (Visit.events s.options)).filter (Event.hasMessage "operation skipped"))
      p.machine.diagnostics.toList)
  case hstart =>
    exact .nil
  case hhalt =>
    intro vs m halt h
    exact h
  case hvisit =>
    intro vs m n _ hnext h
    rw [List.flatMap_append, List.filter_append, List.flatMap_singleton,
      Visit.filter_skipped_events, Machine.diagnostics_machine_step hnext, Array.toList_append]
    apply List.rel_append h
    unfold Attempt.warnings Attempt.diagnostics
    simp only
    cases (attempt s.options n m.memory).result with
    | ok answer =>
        exact .nil
    | error err =>
        have hget := Machine.get?_of_upcoming hnext
        have hname : n.name = m.current := Graph.name_of_get? hget
        rw [← hname] at hget
        exact .cons ⟨n, hget, rfl, rfl⟩ .nil

section Steps

variable {o : Options}
variable {vs stepped : List Visit}

theorem Stepped.getElem?_eq_some
    (h : Stepped o vs stepped)
    {i : Nat}
    {v : Visit}
    (hv : stepped[i]? = some v) :
    vs[i]? = some v := by
  cases h with
  | all h => exact hv
  | butLast h hlast =>
      obtain ⟨hi, -⟩ := List.getElem?_eq_some_iff.mp hv
      rw [List.getElem?_append_left hi, hv]

theorem Stepped.flatMap_stepEvents
    (h : Stepped o vs stepped) :
    vs.flatMap (Visit.stepEvents o) =
      stepped.map fun v => v.stepEvent o (v.machine.steps + 1) := by
  have hall
      {ws : List Visit}
      (h : ∀ w ∈ ws, ¬ w.Refused o) :
      ws.flatMap (Visit.stepEvents o) = ws.map fun v => v.stepEvent o (v.machine.steps + 1) := by
    rw [List.map_eq_flatMap]
    exact List.flatMap_congr fun w hw => Visit.stepEvents_of_not_refused (h w hw)
  cases h with
  | all h => exact hall h
  | butLast h hlast =>
      rw [List.flatMap_append, List.flatMap_singleton, Visit.stepEvents_of_refused hlast,
        List.append_nil, hall h]

/-- The steps are numbered from one if each machine has made as many steps as there are visits
before. -/
theorem map_stepEvent_eq
    (h : ∀ (i : Nat) (v : Visit), vs[i]? = some v → v.machine.steps = i) :
    (vs.map fun v => v.stepEvent o (v.machine.steps + 1)) =
      (vs.zipIdx 1).map fun l => l.1.stepEvent o l.2 := by
  apply List.ext_getElem?
  intro i
  rw [List.getElem?_map, List.getElem?_map, List.getElem?_zipIdx]
  cases hv : vs[i]? with
  | none => rfl
  | some v => simp [h i v hv, Nat.add_comm]

end Steps

/-- Only the last visit of a run can be one whose output is refused. -/
theorem exists_stepped
    (s : Session)
    (fuel : Nat) :
    ∃ stepped, Stepped s.options (s.visits fuel) stepped := by
  -- As long as a run goes on, no output has been refused.
  suffices h :
      (∃ stepped, Stepped s.options (s.visits fuel) stepped) ∧
        ∀ m, s.progress fuel = .running m → ∀ v ∈ s.visits fuel, ¬ v.Refused s.options from h.1
  apply s.visits_induction (P := fun vs p =>
    (∃ stepped, Stepped s.options vs stepped) ∧
      ∀ m, p = .running m → ∀ v ∈ vs, ¬ v.Refused s.options)
  case hstart =>
    exact ⟨⟨[], .all (by simp)⟩, by simp⟩
  case hhalt =>
    intro vs m halt h
    exact ⟨h.1, by simp⟩
  case hvisit =>
    intro vs m n _ hnext h
    have hbefore := h.2 m rfl
    by_cases hrefused : Visit.Refused s.options ⟨m, n⟩
    · obtain ⟨final, hended⟩ := Machine.step_of_refused hnext hrefused
      exact ⟨⟨vs, .butLast hbefore hrefused⟩, by simp [hended]⟩
    · have hafter : ∀ v ∈ vs ++ [⟨m, n⟩], ¬ v.Refused s.options := by
        intro v hv
        rcases List.mem_append.mp hv with hv | hv
        · exact hbefore v hv
        · rw [List.mem_singleton.mp hv]
          exact hrefused
      exact ⟨⟨_, .all hafter⟩, fun _ _ => hafter⟩

/-- The steps of a run are logged in order, with their numbers. -/
theorem exists_stepped_filter_eq
    (s : Session)
    (fuel : Nat) :
    ∃ stepped,
      Stepped s.options (s.visits fuel) stepped ∧
      ((s.visits fuel).flatMap (Visit.events s.options)).filter (Event.hasMessage "step") =
        (stepped.zipIdx 1).map fun l => l.1.stepEvent s.options l.2 := by
  obtain ⟨stepped, hstepped⟩ := s.exists_stepped fuel
  refine ⟨stepped, hstepped, ?_⟩
  have hnumbered (i : Nat) (v : Visit) (hv : stepped[i]? = some v) : v.machine.steps = i := by
    have hvisit : (s.visits fuel)[i]? = some v := hstepped.getElem?_eq_some hv
    exact steps_of_progress_running (executes_of_getElem?_visits hvisit).running
  calc ((s.visits fuel).flatMap (Visit.events s.options)).filter (Event.hasMessage "step")
    _ = (s.visits fuel).flatMap (Visit.stepEvents s.options) := by
        rw [List.filter_flatMap]
        exact List.flatMap_congr fun v _ => v.filter_step_events s.options
    _ = stepped.map fun v => v.stepEvent s.options (v.machine.steps + 1) :=
        hstepped.flatMap_stepEvents
    _ = (stepped.zipIdx 1).map fun l => l.1.stepEvent s.options l.2 :=
        map_stepEvent_eq hnumbered

/-- At every point of a run the log says what has been done. -/
theorem mirrorsRun_progress
    (s : Session)
    (fuel : Nat) :
    s.MirrorsRun (s.visits fuel) (s.progress fuel).machine.diagnostics.toList
      ((s.visits fuel).flatMap (Visit.events s.options)) where
  executes _ _ := executes_of_getElem?_visits
  skipped := s.forall₂_reports_progress fuel
  steps := s.exists_stepped_filter_eq fuel

/-- An event of another kind makes no difference. -/
theorem MirrorsRun.concat
    {s : Session}
    {vs : List Visit}
    {ds : List Diagnostic}
    {events : List Event}
    (h : s.MirrorsRun vs ds events)
    {e : Event}
    (hskipped : e.hasMessage "operation skipped" = false)
    (hstep : e.hasMessage "step" = false) :
    s.MirrorsRun vs ds (events ++ [e]) where
  executes := h.executes
  skipped := by
    rw [List.filter_append, List.filter_singleton, hskipped]
    simpa using h.skipped
  steps := by
    rw [List.filter_append, List.filter_singleton, hstep]
    simpa using h.steps

/-- A run that is over has logged its end after its visits. -/
theorem exists_log_conclude
    (g : Graph)
    (o : Options)
    (halt : Except RunError String)
    (m : Machine) :
    ∃ e : Event,
      (conclude g o halt m).2.log = m.log.add e ∧
      e.hasMessage "operation skipped" = false ∧
      e.hasMessage "step" = false := by
  cases halt with
  | ok name => exact ⟨_, rfl, rfl, rfl⟩
  | error err => exact ⟨_, rfl, rfl, rfl⟩

/-- The log tells what happened.  The log of a source has one rejection for each line that declares
no node, and none for the others, and one redefinition for each declaration that replaces another
one; so the lines that declare a node are as many as the nodes and the redefinitions together.  What
a run adds to a log that is switched on has, at every point of the run and when it is over, one
warning for each note of a skipped operation, in the same order, and one numbered step for each node
that was executed, except for a last one whose output was refused. -/
theorem log_tells_what_happened :
    (∀ source, Program.MirrorsSource source (Program.log source)) ∧
    (∀ (s : Session) (fuel : Nat),
      s.log.enabled = true →
      (s.visits fuel).length = (s.progress fuel).machine.steps ∧
      ∃ events : List Event,
        (s.progress fuel).machine.log.events = s.log.events ++ events.toArray ∧
        s.MirrorsRun (s.visits fuel) (s.progress fuel).machine.diagnostics.toList events) ∧
    ∀ (s : Session) (executed : Nat) (result : Except RunError Report) (after : Session),
      s.Ends executed result after →
      s.log.enabled = true →
      (s.visits executed).length = executed ∧
      ∃ events : List Event,
        after.log.events = s.log.events ++ events.toArray ∧
        s.MirrorsRun (s.visits executed) (after.skipped result).toList events := by
  refine ⟨Program.mirrorsSource_log, ?_, ?_⟩
  · intro s fuel henabled
    refine ⟨s.length_visits fuel, _, ?_, s.mirrorsRun_progress fuel⟩
    rw [s.log_progress fuel, Log.addAll_of_enabled henabled]
  · intro s executed result after hends henabled
    refine ⟨hends.length_visits, ?_⟩
    obtain ⟨fuel, final, halt, hended, rfl, hconclude⟩ := hends
    obtain ⟨rfl, rfl⟩ := Prod.ext_iff.mp hconclude
    have hmirrors := s.mirrorsRun_progress fuel
    have hlog := s.log_progress fuel
    rw [hended] at hmirrors hlog
    obtain ⟨e, hadd, hskipped, hstep⟩ := exists_log_conclude s.graph s.options halt final
    rw [skipped_conclude, visits_of_ended hended]
    refine ⟨_, ?_, hmirrors.concat hskipped hstep⟩
    have hfinal : final.log = _ := hlog
    rw [hadd, hfinal, Log.addAll_of_enabled henabled, Log.add_of_enabled rfl]
    simp

/-- A source with a comment, a declaration that is replaced, and one that is cut off. -/
def interruptedText : String :=
  "# note\n<start>[a]\n<start>[b]\x7bSET(1 / 0)\x7d\n<b>[c]\x7bOUTPUT(5)\x7d\n<oops"

/-- Its program divides by zero, and then writes more than the output takes. -/
def interrupted : Session :=
  .new (Program.parse interruptedText) .standard (.limited 1) .on

/-- The division is logged as skipped and as a step, and the output that is refused as neither. -/
theorem interrupted_log :
    ((Program.log interruptedText).filter Event.isRejection).map Event.headline =
      [(.trace, "ignoring line", some "1"),
        (.warn, "ignoring malformed node declaration", some "5")] ∧
    ((Program.log interruptedText).filter (Event.hasMessage "node redefined")).map Event.shown =
      [(.debug, "node redefined", [("name", "start"), ("line", "3"), ("previous_line", "2")])] ∧
    ∃ executed after events,
      interrupted.Ends executed (.error .output) after ∧
      interrupted.MirrorsRun (interrupted.visits executed) (after.skipped (.error .output)).toList
        events ∧
      events.filter (Event.hasMessage "operation skipped") =
        [.operationSkipped "start" 3 (.eval .divisionByZero)] ∧
      events.filter (Event.hasMessage "step") = [.stepped 1 "start" none (some "b")] := by
  obtain ⟨hsource, -, hends⟩ := log_tells_what_happened
  refine ⟨(hsource _).rejections.trans (by decide +kernel),
    (hsource _).redefinitions.trans (by decide +kernel), ?_⟩
  have hresult :
      (interrupted.runWithin 2).map (fun r => (r.1, r.2.log.events)) =
        some (.error .output,
          #[.dispatched .set, .operationSkipped "start" 3 (.eval .divisionByZero),
            .stepped 1 "start" none (some "b"), .dispatched .output, .runFailed 2 .output]) := by
    decide +kernel
  obtain ⟨⟨result, after⟩, hrun, heq⟩ := Option.map_eq_some_iff.mp hresult
  obtain ⟨rfl, hlogged⟩ := Prod.mk.inj heq
  obtain ⟨executed, hrest⟩ := exists_ends_of_runWithin hrun
  obtain ⟨-, events, hevents, hmirrors⟩ := hends _ _ _ _ hrest rfl
  refine ⟨executed, after, events, hrest, hmirrors, ?_⟩
  obtain rfl : _ = events := by
    have hsame := congrArg Array.toList (hlogged.symm.trans hevents)
    simpa [interrupted, Session.new, Log.on] using hsame
  exact ⟨by decide, by decide⟩

end Session
end Run
end GraphMachine
