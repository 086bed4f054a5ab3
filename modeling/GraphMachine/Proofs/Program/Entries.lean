import GraphMachine.Proofs.Program.Composition
import GraphMachine.Proofs.Program.Spelling

/-!
# What programs say of names

A graph says of a name what its declaration says, and nothing of where the declaration stands.  Two
sources that say the same of every name may still differ in the order of their lines and in the
declarations that later ones replace:

* whole lines that declare different names can be put in any order;
* lines can be left out if the lines after them declare the same names again.

Both follow from one equation for two sources one after the other: what the second one does not
declare is said by the first one.
-/

namespace GraphMachine

namespace Graph

def entryOf? (g : Graph) (name : String) : Option Entry :=
  (g.get? name).map Node.entry

/-- Two graphs say the same of every name. -/
def SameEntries (g g' : Graph) : Prop :=
  ∀ name, g'.entryOf? name = g.entryOf? name

theorem SameEntries.trans
    {g g' g'' : Graph}
    (h : SameEntries g g')
    (h' : SameEntries g' g'') :
    SameEntries g g'' :=
  fun name => (h' name).trans (h name)

theorem isSome_entryOf?_iff
    {g : Graph}
    {name : String} :
    (g.entryOf? name).isSome ↔ name ∈ g.names := by
  rw [entryOf?, Option.isSome_map, mem_names_iff]

theorem entryOf?_eq_none
    {g : Graph}
    {name : String}
    (h : name ∉ g.names) :
    g.entryOf? name = none := by
  rw [← Option.not_isSome_iff_eq_none, isSome_entryOf?_iff]
  exact h

end Graph

namespace Program

open Text

section Parts

variable {s : String}

/-- A source after whole lines has the last word on the names that it declares. -/
theorem entryOf?_parse_append
    (hs : WholeLines s.toList)
    (t name : String) :
    (parse (s ++ t)).entryOf? name = ((parse t).entryOf? name).or ((parse s).entryOf? name) := by
  have hmoved (n : Node) (bytes lines : Nat) : (n.moved bytes lines).entry = n.entry := rfl
  rw [parse_eq, parse_eq, parse_eq, declarations_append hs, Graph.ofList, Graph.insertAll_append,
    Graph.entryOf?, Graph.get?_insertAll, Option.map_or, ← List.map_reverse, List.find?_map,
    Option.map_map]
  refine congrArg₂ Option.or ?_ rfl
  rw [Graph.entryOf?, Graph.get?_ofList]
  exact congrArg₂ Option.map (funext fun n => hmoved n _ _) rfl

/-- A source with other whole lines before it. -/
theorem sameEntries_append
    (hs : WholeLines s.toList)
    {t t' : String}
    (h : (parse t).SameEntries (parse t')) :
    (parse (s ++ t)).SameEntries (parse (s ++ t')) := by
  intro name
  rw [entryOf?_parse_append hs, entryOf?_parse_append hs, h name]

/-- Whole lines can be left out if the lines after them declare all their names again. -/
theorem sameEntries_of_overridden
    (hs : WholeLines s.toList)
    {t : String}
    (h : ∀ name ∈ (parse s).names, name ∈ (parse t).names) :
    (parse (s ++ t)).SameEntries (parse t) := by
  intro name
  rw [entryOf?_parse_append hs]
  by_cases hname : name ∈ (parse s).names
  · rw [Option.or_of_isSome (Graph.isSome_entryOf?_iff.mpr (h name hname))]
  · rw [Graph.entryOf?_eq_none hname, Option.or_none]

/-- Two parts that declare no name both can be exchanged. -/
theorem sameEntries_exchanged
    (hs : WholeLines s.toList)
    {s' : String}
    (hs' : WholeLines s'.toList)
    (hdisjoint : (parse s).names.Disjoint (parse s').names)
    (t : String) :
    (parse (s ++ (s' ++ t))).SameEntries (parse (s' ++ (s ++ t))) := by
  intro name
  rw [entryOf?_parse_append hs, entryOf?_parse_append hs', entryOf?_parse_append hs',
    entryOf?_parse_append hs, Option.or_assoc, Option.or_assoc]
  refine congrArg₂ Option.or rfl ?_
  by_cases hname : name ∈ (parse s).names
  · rw [Graph.entryOf?_eq_none (hdisjoint hname), Option.or_none, Option.none_or]
  · rw [Graph.entryOf?_eq_none hname, Option.or_none, Option.none_or]

end Parts

/-- Parts of whole lines that declare different names can be put in any order. -/
theorem sameEntries_of_perm
    {parts parts' : List String}
    (h : parts.Perm parts')
    (hwhole : ∀ part ∈ parts, WholeLines part.toList)
    (hnames : (parts.flatMap fun part => (parse part).names).Nodup) :
    (parse (String.join parts)).SameEntries (parse (String.join parts')) := by
  induction h with
  | nil =>
      exact fun _ => rfl
  | @cons part parts parts' _ ih =>
      rw [List.forall_mem_cons] at hwhole
      rw [List.flatMap_cons, List.nodup_append] at hnames
      rw [String.join_cons, String.join_cons]
      exact sameEntries_append hwhole.1 (ih hwhole.2 hnames.2.1)
  | swap part part' parts =>
      rw [List.forall_mem_cons, List.forall_mem_cons] at hwhole
      rw [List.flatMap_cons, List.flatMap_cons, List.nodup_append'] at hnames
      have hdisjoint : (parse part').names.Disjoint (parse part).names :=
        (List.disjoint_append_right.mp hnames.2.2).1
      simp only [String.join_cons]
      exact sameEntries_exchanged hwhole.1 hwhole.2.1 hdisjoint _
  | trans hfirst _ ih ih' =>
      refine (ih hwhole hnames).trans (ih' ?_ ?_)
      · exact fun part hpart => hwhole part (hfirst.mem_iff.mpr hpart)
      · exact (hfirst.flatMap_right _).nodup_iff.mp hnames

end Program
end GraphMachine
