import GraphMachine.Program.Log
import GraphMachine.Proofs.Graph.Insertion

/-!
# What registries hold

Whatever nodes are inserted, the table and the names of a registry stay in step.  The names are in
the order in which they were first inserted, and the table has for every name the node that was
inserted last.  `Registers` says this by the list of all nodes that were ever inserted.  Looking up
the names one after the other gives all nodes of the table; none is lost on the way.

One insertion preserves this, so it holds after any number of them.
-/

namespace GraphMachine
namespace Registry

/-- The first node of one name comes before the first node of another name. -/
def FirstBefore (ns : List Node) (a b : String) : Prop :=
  (ns.map Node.name).idxOf a < (ns.map Node.name).idxOf b

/-- The last node of a name. -/
def IsLast (ns : List Node) (name : String) (n : Node) : Prop :=
  n.name = name ∧ ∃ before after, ns = before ++ n :: after ∧ ∀ m ∈ after, m.name ≠ name

/-- The registry is what is left of nodes that were inserted one after the other. -/
structure Registers (ns : List Node) (r : Registry) : Prop where
  nodup : r.order.toList.Nodup
  /-- The names are the keys of the table. -/
  mem_order_iff : ∀ name, name ∈ r.order.toList ↔ name ∈ r.table
  /-- Every node is found under its own name. -/
  name_eq : ∀ name n, r.get? name = some n → n.name = name
  /-- The nodes are listed by name, and no name is passed over. -/
  map_name_nodes : r.nodes.map Node.name = r.order.toList
  length_nodes : r.nodes.length = r.size
  first : r.order.toList.Pairwise (FirstBefore ns)
  last : ∀ name n, r.get? name = some n ↔ IsLast ns name n
  absent : ∀ name, r.get? name = none ↔ ∀ n ∈ ns, n.name ≠ name

section Inserting

variable {r : Registry}
variable {ns : List Node}
variable {n : Node}

theorem isLast_concat_iff
    {name : String}
    {m : Node} :
    IsLast (ns ++ [n]) name m ↔ if n.name = name then n = m else IsLast ns name m := by
  unfold IsLast
  constructor
  · rintro ⟨hm, before, after, heq, hafter⟩
    rcases List.eq_nil_or_concat after with rfl | ⟨after, k, rfl⟩
    · obtain ⟨-, heq⟩ := List.append_inj' heq rfl
      obtain rfl : n = m := by simpa using heq
      rw [if_pos hm]
    · have hsplit : ns ++ [n] = (before ++ m :: after) ++ [k] := by simpa using heq
      obtain ⟨hns, hk⟩ := List.append_inj' hsplit rfl
      obtain rfl : n = k := by simpa using hk
      have hne : n.name ≠ name := hafter n (by simp)
      rw [if_neg hne]
      exact ⟨hm, before, after, hns, fun k hk => hafter k (by simp [hk])⟩
  · split
    · next hname =>
        rintro rfl
        exact ⟨hname, ns, [], rfl, by simp⟩
    · next hname =>
        rintro ⟨hm, before, after, rfl, hafter⟩
        refine ⟨hm, before, after ++ [n], by simp, ?_⟩
        intro k hk
        rcases List.mem_append.mp hk with hk | hk
        · exact hafter k hk
        · rw [List.mem_singleton.mp hk]
          exact hname

/-- Another node at the end leaves the first places of names as they are. -/
theorem FirstBefore.concat
    {a b : String}
    (h : FirstBefore ns a b)
    (hb : b ∈ ns.map Node.name)
    (n : Node) :
    FirstBefore (ns ++ [n]) a b := by
  have hlt : (ns.map Node.name).idxOf a < (ns.map Node.name).length :=
    h.trans (List.idxOf_lt_length_of_mem hb)
  have ha : a ∈ ns.map Node.name := List.idxOf_lt_length_iff.mp hlt
  unfold FirstBefore
  rw [List.map_append, List.idxOf_append_of_mem ha, List.idxOf_append_of_mem hb]
  exact h

/-- A name that comes up for the first time at the end is behind all others. -/
theorem firstBefore_concat_self
    {a : String}
    (ha : a ∈ ns.map Node.name)
    (hn : n.name ∉ ns.map Node.name) :
    FirstBefore (ns ++ [n]) a n.name := by
  unfold FirstBefore
  rw [List.map_append, List.idxOf_append_of_mem ha, List.idxOf_append_of_notMem hn]
  have hlt := List.idxOf_lt_length_of_mem ha
  omega

theorem Registers.inStep
    (h : Registers ns r) :
    r.InStep :=
  ⟨h.nodup, h.mem_order_iff, h.name_eq⟩

theorem Registers.mem_order_iff_mem
    (h : Registers ns r)
    {name : String} :
    name ∈ r.order.toList ↔ name ∈ ns.map Node.name := by
  rw [h.inStep.mem_order_iff_isSome, Option.isSome_iff_ne_none, ne_eq, h.absent]
  simp

theorem registers_empty :
    Registers [] empty where
  nodup := inStep_empty.nodup
  mem_order_iff := inStep_empty.mem_order_iff
  name_eq := inStep_empty.name_eq
  map_name_nodes := rfl
  length_nodes := inStep_empty.length_nodes
  first := .nil
  last := by simp [empty, get?, IsLast]
  absent := by simp [empty, get?]

/-- A registry still registers all nodes after another one is inserted. -/
theorem Registers.insert
    (h : Registers ns r)
    (n : Node) :
    Registers (ns ++ [n]) (r.insert n).2 := by
  have hstep : (r.insert n).2.InStep := h.inStep.insert n
  constructor
  case nodup => exact hstep.nodup
  case mem_order_iff => exact hstep.mem_order_iff
  case name_eq => exact hstep.name_eq
  case map_name_nodes => exact hstep.map_name_nodes
  case length_nodes => exact hstep.length_nodes
  case first =>
    have hkept : r.order.toList.Pairwise (FirstBefore (ns ++ [n])) := by
      refine h.first.imp_of_mem ?_
      intro a b _ hb hab
      exact hab.concat (h.mem_order_iff_mem.mp hb) n
    rw [order_insert]
    split
    · next hnew =>
        rw [List.pairwise_append]
        refine ⟨hkept, List.pairwise_singleton _ _, ?_⟩
        intro a ha b hb
        rw [List.mem_singleton.mp hb]
        refine firstBefore_concat_self (h.mem_order_iff_mem.mp ha) ?_
        rw [← h.mem_order_iff_mem, h.inStep.mem_order_iff_isSome]
        simpa using hnew
    · rw [List.append_nil]
      exact hkept
  case last =>
    intro name m
    rw [get?_insert, isLast_concat_iff]
    split
    · simp
    · exact h.last name m
  case absent =>
    intro name
    rw [get?_insert]
    split
    · next hname => simp [hname]
    · next hname => simp [h.absent, hname, or_imp, forall_and]

theorem ofList_concat
    (ns : List Node)
    (n : Node) :
    ofList (ns ++ [n]) = ((ofList ns).insert n).2 :=
  insertAll_append empty ns [n]

theorem registers_ofList
    (ns : List Node) :
    Registers ns (ofList ns) := by
  induction ns using List.reverseRecOn with
  | nil => exact registers_empty
  | append_singleton ns n ih =>
      rw [ofList_concat]
      exact ih.insert n

end Inserting

/-- After any insertions into the empty registry, and so after reading any program, table and names
are in step and register the nodes that were inserted.  Each insertion gives the node that would
have been found under the name just before it; the name gets the new node, and it is put last in the
list of names exactly if it was not there. -/
theorem insertions_registered :
    (∀ ns : List Node, Registers ns (ofList ns)) ∧
    (∀ source : String,
      Registers (Program.declarations source) (Program.parse source).registry) ∧
    ∀ (ns : List Node) (n : Node),
      ofList (ns ++ [n]) = ((ofList ns).insert n).2 ∧
      ((ofList ns).insert n).1 = (ofList ns).get? n.name ∧
      (∀ name, (ofList (ns ++ [n])).get? name =
        if n.name = name then some n else (ofList ns).get? name) ∧
      (ofList (ns ++ [n])).order.toList =
        (ofList ns).order.toList ++
          if ((ofList ns).get? n.name).isNone then [n.name] else [] := by
  refine ⟨registers_ofList, ?_, ?_⟩
  · intro source
    rw [Program.parse_eq]
    exact registers_ofList _
  intro ns n
  refine ⟨ofList_concat ns n, rfl, ?_, ?_⟩
  · intro name
    rw [ofList_concat, get?_insert]
  · rw [ofList_concat, order_insert]

/-- A name that is inserted again keeps its place. -/
example :
    (ofList [.plain "start" ["x"] none, .plain "x" [] none, .plain "start" ["end"] none]).nodes =
      [.plain "start" ["end"] none, .plain "x" [] none] := by
  decide

end Registry
end GraphMachine
