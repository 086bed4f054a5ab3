import GraphMachine.Program.Log
import GraphMachine.Proofs.Graph.Registry
import GraphMachine.Proofs.Program.Composition

/-!
# What is logged about a source

Reading a source goes through its lines, and what it logs follows from what each line is:

* a line that declares no node is rejected once, and a line that declares one is never rejected;
* a declaration is logged as a redefinition exactly if its name was declared before, with its own
  line and the line of the declaration that it replaces.

A declaration that is no redefinition adds a node to the graph.  So there are as many declaring
lines as nodes and redefinitions together.
-/

namespace GraphMachine

open Text

namespace Event

/-- Whether an event has this message. -/
def hasMessage (message : String) (e : Event) : Bool :=
  e.message == message

/-- Whether an event is about a line that is passed over. -/
def isRejection (e : Event) : Bool :=
  e.hasMessage "ignoring malformed node declaration" || e.hasMessage "ignoring line"

/-- An event as the log shows it. -/
def shown (e : Event) : Level × String × List (String × String) :=
  (e.level, e.message, e.fields)

/-- What the log shows first of an event that is about a line: level, message and line. -/
def headline (e : Event) : Level × String × Option String :=
  (e.level, e.message, e.fields.lookup "line")

end Event

/-- What is logged about a line that was rejected. -/
def Reading.rejection? : Reading → Option Event
  | declared _ _ => none
  | malformed number => some (.declarationMalformed number)
  | ignored number => some (.lineIgnored number)

namespace Program

/-- The lines of a source without their ends, each with its number. -/
def numberedLines (source : String) : List (List Char × Nat) :=
  ((lines source.toList).map chomp).zipIdx 1

/-- Whether a line declares a node. -/
def declares (line : List Char) : Bool :=
  (Declaration.parse? line).isSome

/-- What the log shows of a line that is passed over.  It is a warning if the line starts like a
declaration. -/
def rejection (line : List Char) (number : Nat) : Level × String × Option String :=
  if (trimStart line).head? = some '<' then
    (.warn, "ignoring malformed node declaration", some (Decimal.ofNat number))
  else
    (.trace, "ignoring line", some (Decimal.ofNat number))

/-- The declaration that is replaced by one with this name after some others. -/
def replaced? (earlier : List Node) (name : String) : Option Node :=
  earlier.reverse.find? fun m => m.name == name

/-- What the log shows of a declaration that replaces another one. -/
def redefined (n previous : Node) : Level × String × List (String × String) :=
  (.debug, "node redefined",
    [("name", n.name), ("line", Decimal.ofNat n.line),
      ("previous_line", Decimal.ofNat previous.line)])

/-- What the log shows of the declaration at an index, if it replaces an earlier one. -/
def redefined? (ns : List Node) (l : Node × Nat) :
    Option (Level × String × List (String × String)) :=
  (replaced? (ns.take l.2) l.1.name).map (redefined l.1)

/-- The log of a source says of each line and each declaration what it is. -/
structure MirrorsSource (source : String) (events : List Event) : Prop where
  rejections :
    (events.filter Event.isRejection).map Event.headline =
      ((numberedLines source).filter fun l => !declares l.1).map fun l => rejection l.1 l.2
  declarations :
    ((numberedLines source).filter fun l => declares l.1).map Prod.snd =
      (declarations source).map Node.line
  redefinitions :
    (events.filter (Event.hasMessage "node redefined")).map Event.shown =
      (Program.declarations source).zipIdx.filterMap (redefined? (Program.declarations source))
  count :
    ((numberedLines source).filter fun l => declares l.1).length =
      (parse source).size + (events.filter (Event.hasMessage "node redefined")).length

section Loading

/-- Events of lines that are entered into a graph. -/
def logFrom (g : Graph) : List Reading → List Event
  | [] => [.programParsed g.size]
  | .malformed number :: rest => .declarationMalformed number :: logFrom g rest
  | .ignored number :: rest => .lineIgnored number :: logFrom g rest
  | .declared n unclosed :: rest =>
      declarationEvents n unclosed ++ redefinition n (g.get? n.name) ++
        logFrom (g.insert n).2 rest

/-- What is logged from a line on depends on the graph before it, and not on the log. -/
theorem events_foldl_enter
    (l : Loading)
    (rs : List Reading) :
    (rs.foldl Loading.enter l).close.events.toList = l.events.toList ++ logFrom l.graph rs := by
  induction rs generalizing l with
  | nil => simp [Loading.close, logFrom]
  | cons r rs ih =>
      rw [List.foldl_cons, ih]
      cases r with
      | malformed number => simp [Loading.enter, logFrom]
      | ignored number => simp [Loading.enter, logFrom]
      | declared n unclosed => simp [Loading.enter, logFrom, Graph.insert_fst]

theorem log_eq
    (source : String) :
    log source = logFrom .empty (readings source) :=
  events_foldl_enter ⟨.empty, #[]⟩ (readings source)

end Loading

section Lines

theorem filter_declarationEvents
    {p : Event → Bool}
    (hpart : ∀ line text, p (.partUnclosed line text) = false)
    (hcrowded : ∀ name line edges, p (.nodeCrowded name line edges) = false)
    (n : Node)
    (unclosed : Option String) :
    (declarationEvents n unclosed).filter p = [] := by
  have hedges :
      (if Node.maxEdges < n.edges.length then
        [Event.nodeCrowded n.name n.line n.edges.length]
      else
        []).filter p = [] := by
    split
    · simp [hcrowded]
    · rfl
  cases unclosed with
  | none => simp [declarationEvents, hedges]
  | some text => simp [declarationEvents, hedges, hpart]

theorem filter_isRejection_logFrom
    (g : Graph)
    (rs : List Reading) :
    (logFrom g rs).filter Event.isRejection = rs.filterMap Reading.rejection? := by
  induction rs generalizing g with
  | nil => rfl
  | cons r rs ih =>
      cases r with
      | malformed number =>
          have hrejection : (Event.declarationMalformed number).isRejection = true := rfl
          simp [logFrom, hrejection, ih, Reading.rejection?]
      | ignored number =>
          have hrejection : (Event.lineIgnored number).isRejection = true := rfl
          simp [logFrom, hrejection, ih, Reading.rejection?]
      | declared n unclosed =>
          have hevents : (declarationEvents n unclosed).filter Event.isRejection = [] :=
            filter_declarationEvents (fun _ _ => rfl) (fun _ _ _ => rfl) n unclosed
          have hredefinition :
              (redefinition n (g.get? n.name)).filter Event.isRejection = [] := by
            cases g.get? n.name <;> rfl
          rw [List.filterMap_cons_none rfl, logFrom, List.filter_append, List.filter_append,
            hevents, hredefinition, ih]
          rfl

theorem rejection?_ofLine
    (number offset : Nat)
    (line : List Char) :
    ((Reading.ofLine number offset line).rejection?).map Event.headline =
      if declares line then none else some (rejection line number) := by
  unfold Reading.ofLine declares rejection
  cases Declaration.parse? line with
  | some d => rfl
  | none =>
      simp only [Option.isSome_none, Bool.false_eq_true, if_false]
      split
      · rfl
      · rfl

theorem rejections_readFrom
    (number offset : Nat)
    (ls : List (List Char)) :
    ((readFrom number offset ls).filterMap Reading.rejection?).map Event.headline =
      (((ls.map chomp).zipIdx number).filter fun l => !declares l.1).map
        fun l => rejection l.1 l.2 := by
  induction ls generalizing number offset with
  | nil => rfl
  | cons raw ls ih =>
      have hline := rejection?_ofLine number offset (chomp raw)
      rw [readFrom, List.map_cons, List.zipIdx_cons, List.filterMap_cons, List.filter_cons]
      cases hdeclares : declares (chomp raw) with
      | true =>
          simp only [hdeclares, if_true, Option.map_eq_none_iff] at hline
          simp [hline, ih]
      | false =>
          simp only [hdeclares, Bool.false_eq_true, if_false, Option.map_eq_some_iff] at hline
          obtain ⟨e, he, hheadline⟩ := hline
          simp [he, hheadline, ih]

theorem declaring_nodesFrom
    (number offset : Nat)
    (ls : List (List Char)) :
    (((ls.map chomp).zipIdx number).filter fun l => declares l.1).map Prod.snd =
      (nodesFrom number offset ls).map Node.line := by
  induction ls generalizing number offset with
  | nil => rfl
  | cons raw ls ih =>
      rw [nodesFrom_cons, List.map_cons, List.zipIdx_cons, List.filter_cons, List.map_append,
        ← ih (number + 1)]
      cases hparse : Declaration.parse? (chomp raw) with
      | none => simp [declares, hparse]
      | some d => simp [declares, hparse, Declaration.node]

end Lines

section Redefinitions

/-- One more declaration: what it logs by itself, and what the others log. -/
theorem filter_redefined_logFrom_cons
    (g : Graph)
    (n : Node)
    (unclosed : Option String)
    (rs : List Reading) :
    (logFrom g (.declared n unclosed :: rs)).filter (Event.hasMessage "node redefined") =
      redefinition n (g.get? n.name) ++
        (logFrom (g.insert n).2 rs).filter (Event.hasMessage "node redefined") := by
  have hevents :
      (declarationEvents n unclosed).filter (Event.hasMessage "node redefined") = [] :=
    filter_declarationEvents (fun _ _ => rfl) (fun _ _ _ => rfl) n unclosed
  have hredefinition :
      (redefinition n (g.get? n.name)).filter (Event.hasMessage "node redefined") =
        redefinition n (g.get? n.name) := by
    cases g.get? n.name <;> rfl
  rw [logFrom, List.filter_append, List.filter_append, hevents, hredefinition]
  rfl

theorem map_shown_redefinition
    (earlier : List Node)
    (n : Node) :
    (redefinition n (replaced? earlier n.name)).map Event.shown =
      ((replaced? earlier n.name).map (redefined n)).toList := by
  cases hreplaced : replaced? earlier n.name with
  | none => rfl
  | some previous =>
      have hname : previous.name = n.name := by simpa using List.find?_some hreplaced
      rw [redefinition, hname]
      rfl

/-- The redefinitions in the log of lines that are read after other declarations. -/
theorem redefinitions_logFrom
    (earlier : List Node)
    (rs : List Reading) :
    ((logFrom (.ofList earlier) rs).filter (Event.hasMessage "node redefined")).map Event.shown =
      ((rs.filterMap Reading.node?).zipIdx earlier.length).filterMap
        (redefined? (earlier ++ rs.filterMap Reading.node?)) := by
  induction rs generalizing earlier with
  | nil => rfl
  | cons r rs ih =>
      cases r with
      | malformed number => exact ih earlier
      | ignored number => exact ih earlier
      | declared n unclosed =>
          have hnodes :
              (Reading.declared n unclosed :: rs).filterMap Reading.node? =
                n :: rs.filterMap Reading.node? := rfl
          have hnext := ih (earlier ++ [n])
          rw [Graph.ofList_concat, List.append_assoc, List.length_append] at hnext
          have hfirst :
              ((redefined? (earlier ++ n :: rs.filterMap Reading.node?)) (n, earlier.length)) =
                (replaced? earlier n.name).map (redefined n) := by
            simp [redefined?]
          rw [filter_redefined_logFrom_cons, List.map_append, hnext, Graph.get?_ofList, hnodes,
            List.zipIdx_cons, List.filterMap_cons, hfirst]
          change (redefinition n (replaced? earlier n.name)).map Event.shown ++ _ = _
          rw [map_shown_redefinition]
          cases replaced? earlier n.name with
          | none => rfl
          | some previous => rfl

/-- Each declaration adds a node to the graph or is a redefinition. -/
theorem size_add_redefinitions
    (g : Graph)
    (rs : List Reading) :
    (g.insertAll (rs.filterMap Reading.node?)).size +
        ((logFrom g rs).filter (Event.hasMessage "node redefined")).length =
      g.size + (rs.filterMap Reading.node?).length := by
  induction rs generalizing g with
  | nil => rfl
  | cons r rs ih =>
      cases r with
      | malformed number => exact ih g
      | ignored number => exact ih g
      | declared n unclosed =>
          have hnodes :
              (Reading.declared n unclosed :: rs).filterMap Reading.node? =
                n :: rs.filterMap Reading.node? := rfl
          have hsize := g.size_insert n
          have hrest := ih (g.insert n).2
          have hlength :
              (redefinition n (g.get? n.name)).length =
                if (g.get? n.name).isSome then 1 else 0 := by
            cases g.get? n.name <;> rfl
          rw [filter_redefined_logFrom_cons, hnodes, Graph.insertAll_cons, List.length_append,
            List.length_cons, hlength]
          omega

end Redefinitions

/-- Every source is read with a log that mirrors it. -/
theorem mirrorsSource_log
    (source : String) :
    MirrorsSource source (log source) := by
  have hdeclarations := declaring_nodesFrom 1 0 (lines source.toList)
  constructor
  case rejections =>
    rw [log_eq, filter_isRejection_logFrom]
    exact rejections_readFrom 1 0 (lines source.toList)
  case declarations => exact hdeclarations
  case redefinitions =>
    rw [log_eq]
    exact redefinitions_logFrom [] (readings source)
  case count =>
    rw [log_eq, parse_eq]
    have hcount := size_add_redefinitions .empty (readings source)
    have hlength := congrArg List.length hdeclarations
    rw [List.length_map, List.length_map] at hlength
    have hempty : Graph.empty.size = 0 := rfl
    rw [hempty, Nat.zero_add] at hcount
    exact hlength.trans hcount.symm

end Program
end GraphMachine
