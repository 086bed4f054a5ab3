import GraphMachine.Proofs.Memory.Snapshot
import GraphMachine.Proofs.Program.OneLine
import GraphMachine.Proofs.Reference.Replacement
import GraphMachine.Proofs.Run.Endings
import GraphMachine.Proofs.Run.Visits

/-!
# Output in whole lines

The output of a program comes in whole lines: one for each output that succeeds, and with debugging
one more for each node that is executed.  No other line feed gets into it, since none is in anything
that a line is made of:

* the text of an output is made of characters of the operation and of numbers;
* a line for debugging shows names of nodes, which have been read from a line of the program, and
  names of cells, which are identifiers.

The names of cells are the one thing that a run carries along, so that memory has none but such
names is the invariant.
-/

namespace GraphMachine

open Text

section Decimals

theorem Decimal.oneLine_ofWord
    (v : Int64) :
    OneLine (ofWord v) :=
  notMem_ofWord (by decide) (by decide) v

theorem Decimal.oneLine_ofNat
    (n : Nat) :
    OneLine (ofNat n) := by
  unfold OneLine ofNat
  rw [Nat.toList_repr]
  exact fun hmem => absurd ((isNumeral_toDigits n).2 _ hmem) (by decide)

end Decimals

namespace Operation

section Printing

variable {text : String}
variable {s : Scope}
variable {maxDepth : Nat}

theorem oneLine_template_of_parse
    {template : String}
    (h : parse text = .ok (.output (.template template)))
    (htext : OneLine text) :
    OneLine template := by
  have hprinted : parseOutput (argumentOf text) = .template template := by
    simpa [ofCall, keyword] using ofCall_of_parse h
  unfold parseOutput at hprinted
  cases hquotes : unquote? (trim (argumentOf text)) with
  | none =>
      simp only [hquotes] at hprinted
      cases htrim : trim (argumentOf text) with
      | nil => simp [htrim] at hprinted
      | cons c cs => simp [htrim] at hprinted
  | some w =>
      simp only [hquotes] at hprinted
      cases hprinted
      obtain ⟨q, -, hq⟩ := quotes_iff.mpr hquotes
      intro hmem
      rw [String.toList_ofList] at hmem
      apply htext
      apply argumentOf_subset
      apply mem_of_mem_trim
      rw [hq]
      simp [hmem]

/-- What an output writes has no line feed but the one at its end. -/
theorem oneLine_line
    {printed : Printed}
    {result : String}
    (hparse : parse text = .ok (.output printed))
    (htext : OneLine text)
    (h : line s maxDepth printed = .ok result) :
    OneLine result := by
  cases printed with
  | template template =>
      intro hmem
      rcases Template.mem_of_substitute h hmem with htemplate | ⟨v, hv⟩
      · exact oneLine_template_of_parse hparse htext htemplate
      · exact Decimal.oneLine_ofWord v hv
  | value expression =>
      obtain ⟨v, _, rfl⟩ := map_eq_ok_iff.mp h
      exact Decimal.oneLine_ofWord v.toWord

/-- Outputs write a line, and all other operations write nothing. -/
theorem framed_output
    {op : Operation}
    {eff : Effect}
    (hparse : parse text = .ok op)
    (htext : OneLine text)
    (heffect : op.effect s maxDepth = .ok eff) :
    Framed (if op.keyword = .output then 1 else 0) eff.output := by
  by_cases hkeyword : op.keyword = .output
  · rw [if_pos hkeyword]
    cases op with
    | output printed =>
        obtain ⟨result, hline, rfl⟩ := map_eq_ok_iff.mp heffect
        exact (oneLine_line hparse htext hline).framed
    | _ => cases hkeyword
  · rw [if_neg hkeyword, output_eq_empty heffect hkeyword]
    exact framed_empty

end Printing

end Operation

section Names

/-- No name of a cell has a line feed in it. -/
def Memory.OneLine (m : Memory) : Prop :=
  ∀ name value, m.names[name]? = some value → Text.OneLine name

theorem Memory.oneLine_empty :
    Memory.empty.OneLine :=
  names_empty

theorem oneLine_of_isIdentifier
    (name : String)
    (h : IsIdentifier name.toList) :
    Text.OneLine name :=
  fun hmem => absurd (h.isWordChar _ hmem) (by decide)

theorem Memory.OneLine.snapshot
    {m : Memory}
    (h : m.OneLine) :
    Text.OneLine m.snapshot := by
  have hcells : ∀ t ∈ m.cells.map cellText, Text.OneLine t := by
    intro t ht
    obtain ⟨cell, -, rfl⟩ := List.mem_map.mp ht
    simp +decide [cellText, Decimal.oneLine_ofWord]
  have hnamed : ∀ t ∈ m.namedCells.map namedCellText, Text.OneLine t := by
    intro t ht
    obtain ⟨⟨name, value⟩, hcell, rfl⟩ := List.mem_map.mp ht
    have hname := h name value (Std.ExtTreeMap.mem_toList_iff_getElem?_eq_some.mp hcell)
    simp +decide [namedCellText, Decimal.oneLine_ofWord, hname]
  simp +decide [Memory.snapshot, Decimal.oneLine_ofWord, oneLine_join hcells, oneLine_join hnamed]

end Names

namespace Run

theorem framed_traceLine
    {n : Node}
    {m : Memory}
    (hn : n.entry.OneLine)
    (hm : m.OneLine)
    (step : Nat)
    (answer : Option Bool) :
    Framed 1 (traceLine step n answer m) := by
  have hnext : OneLine ((n.next answer).getD "halt") := by
    cases hnext : n.next answer with
    | none => decide
    | some name => exact hn.edges name (Node.mem_edges_of_next hnext).2
  have hanswer : OneLine ((answer.map Value.boolText).getD "none") := by
    cases answer with
    | none => decide
    | some b => cases b <;> decide
  have hname : OneLine n.name := hn.name
  apply OneLine.framed
  simp +decide [Decimal.oneLine_ofNat, hname, hnext, hanswer, hm.snapshot]

/-- Whether a visit does an output, and the output succeeds. -/
def Visit.prints (o : Options) (v : Visit) : Bool :=
  match v.node.operation.map Operation.parse with
  | some (.ok op) =>
      op.keyword == .output &&
        (op.execute ⟨v.machine.memory, o.mode⟩ o.maxDepth v.machine.out).result.isOk
  | _ => false

section Visits

variable {o : Options}
variable {v : Visit}

/-- The operation of a node writes a line if it is an output that succeeds, and else nothing. -/
theorem framed_attempt
    (hn : v.node.entry.OneLine)
    (hroom : v.machine.out.room = none) :
    Framed (if v.prints o then 1 else 0) (attempt o v.node v.machine.memory).text := by
  cases hoperation : v.node.operation with
  | none =>
      simpa [attempt, Visit.prints, hoperation] using framed_empty
  | some text =>
      cases hparse : Operation.parse text with
      | error err =>
          simpa [attempt, Visit.prints, hoperation, hparse] using framed_empty
      | ok op =>
          cases heffect : op.effect ⟨v.machine.memory, o.mode⟩ o.maxDepth with
          | error err =>
              have hdone :
                  (op.execute ⟨v.machine.memory, o.mode⟩ o.maxDepth v.machine.out).result =
                    .error (.eval err) := by
                simp only [Operation.execute_eq, heffect]
              simpa [attempt, Visit.prints, hoperation, hparse, heffect, hdone, Except.isOk,
                Except.toBool] using framed_empty
          | ok eff =>
              have hdone :
                  (op.execute ⟨v.machine.memory, o.mode⟩ o.maxDepth v.machine.out).result =
                    .ok eff.result := by
                simp only [Operation.execute_eq, heffect, Sink.write_of_room_none hroom]
              have hframed := Operation.framed_output hparse (hn.operation text hoperation) heffect
              simpa [attempt, Visit.prints, hoperation, hparse, heffect, hdone, Except.isOk,
                Except.toBool] using hframed

/-- Executing a node adds no name with a line feed. -/
theorem oneLine_attempt
    {n : Node}
    {memory : Memory}
    (hmemory : memory.OneLine) :
    (attempt o n memory).memory.OneLine := by
  unfold attempt
  cases n.operation with
  | none => exact hmemory
  | some text =>
      cases hparse : Operation.parse text with
      | error err =>
          simpa only [hparse] using hmemory
      | ok op =>
          simp only [hparse]
          cases heffect : op.effect ⟨memory, o.mode⟩ o.maxDepth with
          | error err => exact hmemory
          | ok eff =>
              exact Operation.names_of_effect hparse heffect oneLine_of_isIdentifier hmemory

theorem framed_stepText
    (hn : v.node.entry.OneLine)
    (hmemory : v.machine.memory.OneLine)
    (hroom : v.machine.out.room = none) :
    Framed ((if v.prints o then 1 else 0) + if o.debug then 1 else 0)
      (v.machine.stepText o v.node) := by
  apply (framed_attempt hn hroom).append
  split
  · exact framed_traceLine hn (oneLine_attempt hmemory) _ _
  · exact framed_empty

end Visits

namespace Session

/-- What visits have left behind: names without line feeds, and lines in an output that has taken
all of them. -/
structure WritesLines (s : Session) (vs : List Visit) (memory : Memory) (out : Sink) : Prop where
  names : memory.OneLine
  room : out.room = none
  lines : ∃ text : String,
    out.taken = s.out.taken ++ text.toUTF8 ∧
    Framed (vs.countP (Visit.prints s.options) + if s.options.debug then vs.length else 0) text

variable {s after : Session}
variable {executed : Nat}
variable {result : Except RunError Report}

theorem writesLines_nil
    (hroom : s.out.room = none) :
    s.WritesLines [] .empty s.out where
  names := Memory.oneLine_empty
  room := hroom
  lines := ⟨"", by simp, by simpa using framed_empty⟩

theorem WritesLines.visit
    {vs : List Visit}
    {v : Visit}
    {m : Machine}
    (h : s.WritesLines vs v.machine.memory v.machine.out)
    (hn : v.node.entry.OneLine)
    (hleaves : v.Leaves s.options m) :
    s.WritesLines (vs ++ [v]) m.memory m.out := by
  have hout := hleaves.out_eq
  rw [Sink.write_of_room_none h.room] at hout
  constructor
  case names =>
    rw [hleaves.memory_eq]
    exact oneLine_attempt h.names
  case room =>
    rw [hout]
  case lines =>
    obtain ⟨text, htaken, hframed⟩ := h.lines
    refine ⟨text ++ v.machine.stepText s.options v.node, ?_, ?_⟩
    · have happend :
          (text ++ v.machine.stepText s.options v.node).toUTF8 =
            text.toUTF8 ++ (v.machine.stepText s.options v.node).toUTF8 :=
        String.toByteArray_append
      rw [hout, happend, ← ByteArray.append_assoc, ← htaken]
    · have hcount :
          (vs ++ [v]).countP (Visit.prints s.options) +
              (if s.options.debug then (vs ++ [v]).length else 0) =
            (vs.countP (Visit.prints s.options) + if s.options.debug then vs.length else 0) +
              ((if v.prints s.options then 1 else 0) + if s.options.debug then 1 else 0) := by
        rw [List.countP_append, List.countP_singleton, List.length_append, List.length_singleton]
        cases s.options.debug with
        | true => simp only [if_true]; omega
        | false => simp
      rw [hcount]
      exact hframed.append (framed_stepText hn h.names h.room)

/-- No run makes a name with a line feed in it. -/
theorem oneLine_progress
    (s : Session)
    (fuel : Nat) :
    (s.progress fuel).machine.memory.OneLine := by
  apply s.visits_induction (P := fun _ p => p.machine.memory.OneLine) Memory.oneLine_empty
  · intro vs m halt h
    exact h
  · intro vs m n _ hupcoming h
    have hleaves := Visit.leaves_step hupcoming
    rw [hleaves.memory_eq]
    exact oneLine_attempt h

theorem Ends.writesLines
    {source : String}
    (h : s.Ends executed result after)
    (hgraph : s.graph = Program.parse source)
    (hroom : s.out.room = none) :
    s.WritesLines (s.visits executed) after.memory after.out := by
  apply h.visits_induction (writesLines_nil hroom)
  intro vs v m hget hleaves hvs
  rw [hgraph] at hget
  exact hvs.visit (Program.oneLine_of_get? hget) hleaves

/-- Output is framed in whole lines.  Whatever a program is and with whatever options it runs, what
a run that ends has written to an output that takes everything is empty or ends with a line feed,
and it has as many line feeds as outputs have succeeded, and with debugging one more for each node
that was executed. -/
theorem output_in_whole_lines
    (source : String)
    (s : Session)
    (hgraph : s.graph = Program.parse source)
    (hroom : s.out.room = none)
    {executed : Nat}
    {result : Except RunError Report}
    {after : Session}
    (h : s.Ends executed result after) :
    (s.visits executed).length = executed ∧
    (∀ i v, (s.visits executed)[i]? = some v → s.Executes i v.machine v.node) ∧
    ∃ text : String,
      after.out.taken = s.out.taken ++ text.toUTF8 ∧
      (text = "" ∨ text.toList.getLast? = some '\n') ∧
      text.toList.count '\n' =
        (s.visits executed).countP (Visit.prints s.options) +
          if s.options.debug then executed else 0 := by
  obtain ⟨text, htaken, hframed⟩ := (h.writesLines hgraph hroom).lines
  rw [h.length_visits] at hframed
  exact ⟨h.length_visits, fun i v hv => executes_of_getElem?_visits hv, text, htaken,
    hframed.getLast?_eq, hframed.count_eq⟩

/-- A program with a carriage return in its first output and a failing second one. -/
def returning : Session :=
  .new
    (Program.parse
      "<start>[next]\x7bOUTPUT('a\r\x7b\x7d')\x7d\n<next>[end]\x7bOUTPUT(\x7bx\x7d)\x7d")
    (Options.standard.withDebug true) .unlimited .off

/-- Of the two outputs one succeeds, and there is a line for debugging after each. -/
theorem returning_writes_three_lines :
    (returning.visits 2).countP (Visit.prints returning.options) = 1 ∧
      ∃ after,
        returning.Ends 2
          (.ok ⟨2, "end", 0, #[⟨2, "next", some ⟨42, 53⟩, .eval (.namedMemoryDisabled "x")⟩]⟩)
          after ∧
        ∃ text : String,
          after.out.taken = returning.out.taken ++ text.toUTF8 ∧
          text.toList.getLast? = some '\n' ∧
          text.toList.count '\n' = 3 := by
  have hprints : (returning.visits 2).countP (Visit.prints returning.options) = 1 := by
    decide +kernel
  have hresult :
      (returning.runWithin 3).map Prod.fst =
        some (.ok ⟨2, "end", 0,
          #[⟨2, "next", some ⟨42, 53⟩, .eval (.namedMemoryDisabled "x")⟩]⟩) := by
    decide +kernel
  obtain ⟨⟨result, after⟩, hrun, rfl⟩ := Option.map_eq_some_iff.mp hresult
  have hends := ends_of_runWithin_ok hrun
  obtain ⟨-, -, text, htaken, hlast, hcount⟩ := output_in_whole_lines _ returning rfl rfl hends
  have hthree : text.toList.count '\n' = 3 := by
    rw [hcount, hprints]
    rfl
  refine ⟨hprints, after, hends, text, htaken, ?_, hthree⟩
  rcases hlast with rfl | hlast
  · cases hthree
  · exact hlast

end Session
end Run
end GraphMachine
