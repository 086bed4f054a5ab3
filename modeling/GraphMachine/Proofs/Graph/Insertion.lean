import GraphMachine.Graph
import Mathlib

/-!
# Inserting nodes

The table of a registry and its list of names stay in step: the names are those under which the
table has nodes, each of them once, and each node stands under its own name.  Insertions keep it so,
whether they replace a node or not, and graphs are made by insertions.  Hence a graph is determined
by its names in their order and by the node of each name.

From this follows what the theory of programs needs: a graph is determined by the list of its
declarations, and inserting all nodes of a graph comes to the same as inserting the declarations
that it is made of.
-/

namespace GraphMachine

section Duplicates

variable {α : Type} [DecidableEq α]

theorem eraseDups_concat
    (l : List α)
    (a : α) :
    (l ++ [a]).eraseDups = l.eraseDups ++ if a ∉ l then [a] else [] := by
  rw [List.eraseDups_append]
  by_cases hmem : a ∈ l
  · have hnone : [a].removeAll l = [] := by
      simpa [List.removeAll, List.filter_cons] using hmem
    rw [hnone, List.eraseDups_nil, if_neg (not_not_intro hmem)]
  · have hnew : [a].removeAll l = [a] := by
      simpa [List.removeAll, List.filter_cons] using hmem
    rw [hnew, if_pos hmem]
    rfl

theorem eraseDups_of_nodup
    {l : List α}
    (h : l.Nodup) :
    l.eraseDups = l := by
  induction l using List.reverseRecOn with
  | nil =>
      rfl
  | append_singleton l a ih =>
      have hmem : a ∉ l := fun hmem => List.disjoint_of_nodup_append h hmem (by simp)
      rw [eraseDups_concat, ih h.of_append_left, if_pos hmem]

/-- Of equal members only the first one counts, also if they come from two lists. -/
theorem eraseDups_append_eraseDups
    (l l' : List α) :
    (l ++ l'.eraseDups).eraseDups = (l ++ l').eraseDups := by
  induction l' using List.reverseRecOn with
  | nil =>
      rfl
  | append_singleton l' a ih =>
      rw [eraseDups_concat l', ← List.append_assoc l l', eraseDups_concat (l ++ l')]
      by_cases hmem : a ∈ l'
      · simp [hmem, ih]
      · rw [if_pos hmem, ← List.append_assoc, eraseDups_concat, ih]
        simp

end Duplicates

namespace Registry

section Inserting

variable {r : Registry}

theorem get?_insert
    (r : Registry)
    (n : Node)
    (name : String) :
    (r.insert n).2.get? name = if n.name = name then some n else r.get? name := by
  simp [insert, get?, Std.ExtTreeMap.getElem?_insert]

theorem order_insert
    (r : Registry)
    (n : Node) :
    (r.insert n).2.order.toList =
      r.order.toList ++ if (r.get? n.name).isNone then [n.name] else [] := by
  simp only [insert]
  split
  · exact Array.toList_push
  · exact (List.append_nil _).symm

/-- The names are those of the table, and nodes stand under their own names. -/
structure InStep (r : Registry) : Prop where
  nodup : r.order.toList.Nodup
  mem_order_iff : ∀ name, name ∈ r.order.toList ↔ name ∈ r.table
  name_eq : ∀ name n, r.get? name = some n → n.name = name

theorem InStep.mem_order_iff_isSome
    (h : r.InStep)
    {name : String} :
    name ∈ r.order.toList ↔ (r.get? name).isSome := by
  rw [h.mem_order_iff, get?, Std.ExtTreeMap.isSome_getElem?_iff_mem]

theorem inStep_empty :
    empty.InStep where
  nodup := List.nodup_nil
  mem_order_iff := by simp [empty]
  name_eq := by simp [empty, get?]

/-- An insertion keeps names and table in step. -/
theorem InStep.insert
    (h : r.InStep)
    (n : Node) :
    (r.insert n).2.InStep := by
  constructor
  case nodup =>
    rw [order_insert]
    split
    · next hnew =>
        refine h.nodup.append (List.nodup_singleton _) ?_
        rw [List.disjoint_singleton, h.mem_order_iff_isSome]
        simpa using hnew
    · rw [List.append_nil]
      exact h.nodup
  case mem_order_iff =>
    intro name
    have htable : name ∈ (r.insert n).2.table ↔ n.name = name ∨ name ∈ r.table := by
      simp [Registry.insert]
    rw [htable, order_insert, List.mem_append, h.mem_order_iff]
    split
    · rw [List.mem_singleton, or_comm, eq_comm]
    · next hold =>
        have hmem : n.name ∈ r.table := by
          rw [← h.mem_order_iff, h.mem_order_iff_isSome]
          simpa [Option.isSome_iff_ne_none] using hold
        simp only [List.not_mem_nil, or_false, iff_or_self]
        rintro rfl
        exact hmem
  case name_eq =>
    intro name m hget
    rw [get?_insert] at hget
    split at hget
    · next hname =>
        cases hget
        exact hname
    · exact h.name_eq name m hget

theorem InStep.insertAll
    (h : r.InStep)
    (ns : List Node) :
    (r.insertAll ns).InStep := by
  induction ns generalizing r with
  | nil => exact h
  | cons n ns ih => exact ih (h.insert n)

theorem inStep_ofList
    (ns : List Node) :
    (ofList ns).InStep :=
  inStep_empty.insertAll ns

end Inserting

section Listing

variable {r : Registry}

/-- No name is passed over in the list of the nodes. -/
theorem InStep.map_name_nodes
    (h : r.InStep) :
    r.nodes.map Node.name = r.order.toList := by
  have hall : ∀ names : List String, (∀ name ∈ names, name ∈ r.order.toList) →
      (names.filterMap r.get?).map Node.name = names := by
    intro names hnames
    induction names with
    | nil =>
        rfl
    | cons name names ih =>
        rw [List.forall_mem_cons, h.mem_order_iff_isSome] at hnames
        obtain ⟨n, hget⟩ := Option.isSome_iff_exists.mp hnames.1
        rw [List.filterMap_cons_some hget, List.map_cons, h.name_eq name n hget, ih hnames.2]
  exact hall _ fun _ hmem => hmem

/-- There are as many names as entries in the table. -/
theorem InStep.length_nodes
    (h : r.InStep) :
    r.nodes.length = r.size := by
  have hperm : r.order.toList.Perm r.table.keys := by
    rw [List.perm_ext_iff_of_nodup h.nodup Std.ExtTreeMap.nodup_keys]
    intro name
    rw [h.mem_order_iff, Std.ExtTreeMap.mem_keys]
  rw [← List.length_map (f := Node.name), h.map_name_nodes, hperm.length_eq,
    Std.ExtTreeMap.length_keys]
  rfl

end Listing
end Registry

namespace Graph

section Views

variable {g g' : Graph}
variable {name : String}
variable {n : Node}

theorem inStep
    (g : Graph) :
    g.registry.InStep := by
  obtain ⟨ns, hmade⟩ := g.made
  rw [hmade]
  exact Registry.inStep_ofList ns

theorem names_eq
    (g : Graph) :
    g.names = g.registry.order.toList :=
  g.inStep.map_name_nodes

theorem nodes_eq
    (g : Graph) :
    g.nodes = g.names.filterMap g.get? := by
  rw [names_eq]
  rfl

theorem nodup_names
    (g : Graph) :
    g.names.Nodup :=
  g.names_eq ▸ g.inStep.nodup

theorem mem_names_iff :
    name ∈ g.names ↔ (g.get? name).isSome := by
  rw [names_eq]
  exact g.inStep.mem_order_iff_isSome

theorem length_names
    (g : Graph) :
    g.names.length = g.size := by
  rw [names, List.length_map]
  exact g.inStep.length_nodes

theorem name_of_get?
    (h : g.get? name = some n) :
    n.name = name :=
  g.inStep.name_eq name n h

theorem mem_names_of_get?
    (h : g.get? name = some n) :
    name ∈ g.names :=
  mem_names_iff.mpr (by rw [h]; rfl)

/-- Each node is found under its name. -/
theorem mem_nodes_iff :
    n ∈ g.nodes ↔ g.get? n.name = some n := by
  rw [nodes_eq, List.mem_filterMap]
  constructor
  · rintro ⟨name, -, hget⟩
    rwa [name_of_get? hget]
  · intro hget
    exact ⟨n.name, mem_names_of_get? hget, hget⟩

/-- Graphs with the same names in the same order and the same nodes under them are the same. -/
theorem eq_of_names_of_get?
    (hnames : g.names = g'.names)
    (hget : ∀ name, g.get? name = g'.get? name) :
    g = g' := by
  rw [names_eq, names_eq] at hnames
  obtain ⟨⟨table, order⟩, made⟩ := g
  obtain ⟨⟨table', order'⟩, made'⟩ := g'
  obtain rfl : order = order' := Array.toList_inj.mp hnames
  obtain rfl : table = table' := Std.ExtTreeMap.ext_getElem? hget
  rfl

end Views

section Inserting

variable {g : Graph}

theorem insert_fst
    (g : Graph)
    (n : Node) :
    (g.insert n).1 = g.get? n.name := by
  rfl

theorem get?_insert
    (g : Graph)
    (n : Node)
    (name : String) :
    (g.insert n).2.get? name = if n.name = name then some n else g.get? name :=
  g.registry.get?_insert n name

theorem names_insert
    (g : Graph)
    (n : Node) :
    (g.insert n).2.names = g.names ++ if (g.get? n.name).isNone then [n.name] else [] := by
  rw [names_eq, names_eq]
  exact g.registry.order_insert n

/-- An insertion adds a node or replaces one. -/
theorem size_insert
    (g : Graph)
    (n : Node) :
    (g.insert n).2.size + (if (g.get? n.name).isSome then 1 else 0) = g.size + 1 := by
  rw [← length_names, ← length_names, names_insert, List.length_append]
  cases g.get? n.name <;> simp

end Inserting

section Lists

variable {g : Graph}

@[simp] theorem insertAll_nil
    (g : Graph) :
    g.insertAll [] = g := by
  rfl

@[simp] theorem insertAll_cons
    (g : Graph)
    (n : Node)
    (ns : List Node) :
    g.insertAll (n :: ns) = (g.insert n).2.insertAll ns := by
  rfl

theorem insertAll_append
    (g : Graph)
    (ns ms : List Node) :
    g.insertAll (ns ++ ms) = (g.insertAll ns).insertAll ms := by
  induction ns generalizing g with
  | nil => rfl
  | cons n ns ih => exact ih (g.insert n).2

theorem ofList_concat
    (ns : List Node)
    (n : Node) :
    ofList (ns ++ [n]) = ((ofList ns).insert n).2 :=
  insertAll_append empty ns [n]

/-- The names of a graph stand in the order in which they were first inserted. -/
theorem names_insertAll
    (g : Graph)
    (ns : List Node) :
    (g.insertAll ns).names = (g.names ++ ns.map Node.name).eraseDups := by
  induction ns using List.reverseRecOn with
  | nil =>
      rw [insertAll_nil, List.map_nil, List.append_nil]
      exact (eraseDups_of_nodup g.nodup_names).symm
  | append_singleton ns n ih =>
      have hmem : ((g.insertAll ns).get? n.name).isNone ↔ n.name ∉ g.names ++ ns.map Node.name := by
        rw [← List.mem_eraseDups, ← ih, mem_names_iff]
        simp
      rw [insertAll_append, insertAll_cons, insertAll_nil, names_insert, ih, List.map_append,
        List.map_singleton, ← List.append_assoc, eraseDups_concat]
      simp only [hmem]

theorem names_ofList
    (ns : List Node) :
    (ofList ns).names = (ns.map Node.name).eraseDups :=
  names_insertAll empty ns

/-- A name has the node that was inserted last under it. -/
theorem get?_insertAll
    (g : Graph)
    (ns : List Node)
    (name : String) :
    (g.insertAll ns).get? name =
      (ns.reverse.find? fun n => n.name == name).or (g.get? name) := by
  induction ns using List.reverseRecOn with
  | nil =>
      rfl
  | append_singleton ns n ih =>
      rw [insertAll_append, insertAll_cons, insertAll_nil, get?_insert, ih]
      by_cases hname : n.name = name
      · simp [hname]
      · simp [hname]

theorem get?_ofList
    (ns : List Node)
    (name : String) :
    (ofList ns).get? name = ns.reverse.find? fun n => n.name == name := by
  have hempty : empty.get? name = none := by
    simp [empty, get?, Registry.get?, Registry.empty]
  rw [ofList, get?_insertAll, hempty, Option.or_none]

/-- A graph has no nodes but those that it is made of. -/
theorem mem_of_get?_ofList
    {ns : List Node}
    {name : String}
    {n : Node}
    (h : (ofList ns).get? name = some n) :
    n ∈ ns := by
  rw [get?_ofList] at h
  exact List.mem_reverse.mp (List.mem_of_find?_eq_some h)

/-- The nodes of a graph make the same graph again. -/
theorem ofList_nodes
    (g : Graph) :
    ofList g.nodes = g := by
  apply eq_of_names_of_get?
  · rw [names_ofList]
    exact eraseDups_of_nodup g.nodup_names
  · intro name
    rw [get?_ofList]
    cases hfind : g.nodes.reverse.find? fun n => n.name == name with
    | some n =>
        have hname : n.name = name := by simpa using List.find?_some hfind
        have hmem : n ∈ g.nodes := List.mem_reverse.mp (List.mem_of_find?_eq_some hfind)
        rw [← hname, mem_nodes_iff.mp hmem]
    | none =>
        symm
        rw [Option.eq_none_iff_forall_ne_some]
        intro n hget
        have hname := name_of_get? hget
        have hmem : n ∈ g.nodes := mem_nodes_iff.mpr (hname ▸ hget)
        simpa [hname] using List.find?_eq_none.mp hfind n (List.mem_reverse.mpr hmem)

/-- Inserting the nodes of a graph comes to the same as inserting the declarations that it is made
of. -/
theorem insertAll_nodes_ofList
    (g : Graph)
    (ns : List Node) :
    g.insertAll (ofList ns).nodes = g.insertAll ns := by
  apply eq_of_names_of_get?
  · have hnames : (ofList ns).nodes.map Node.name = (ns.map Node.name).eraseDups := names_ofList ns
    rw [names_insertAll, names_insertAll, hnames, eraseDups_append_eraseDups]
  · intro name
    rw [get?_insertAll, get?_insertAll, ← get?_ofList, ← get?_ofList, ofList_nodes]

/-- A change of nodes that keeps their names can be made before or after they are inserted. -/
theorem nodes_ofList_map
    {f : Node → Node}
    (hf : ∀ n, (f n).name = n.name)
    (ns : List Node) :
    (ofList (ns.map f)).nodes = (ofList ns).nodes.map f := by
  have hnames : (ofList (ns.map f)).names = (ofList ns).names := by
    rw [names_ofList, names_ofList, List.map_map]
    congr 2
    funext n
    exact hf n
  have hget : (ofList (ns.map f)).get? = fun name => ((ofList ns).get? name).map f := by
    funext name
    simp [get?_ofList, ← List.map_reverse, List.find?_map, hf]
  rw [nodes_eq, nodes_eq, hnames, hget, List.map_filterMap]

end Lists
end Graph
end GraphMachine
