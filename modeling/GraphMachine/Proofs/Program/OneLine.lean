import GraphMachine.Proofs.Program.LineReading
import GraphMachine.Proofs.Program.Places

/-!
# Texts within one line

A program is read line by line.  Whatever characters a declaration has in it, all of them stand on
its line, so there is no line feed in the name of a node, in the names of its successors and in its
operation.

What is put together from texts without a line feed and is ended by one is a whole line, and a text
that is made of whole lines has as many line feeds as lines and ends with one of them.
-/

namespace GraphMachine

namespace Text

/-- A text without a line feed. -/
def OneLine (t : String) : Prop :=
  '\n' ∉ t.toList

instance (t : String) : Decidable (OneLine t) :=
  inferInstanceAs (Decidable ('\n' ∉ t.toList))

/-- A text of so many whole lines. -/
def Framed (count : Nat) (t : String) : Prop :=
  ∃ ls : List (List Char), (∀ l ∈ ls, IsWholeLine l) ∧ ls.flatten = t.toList ∧ ls.length = count

section OneLine

variable {t u : String}

@[simp] theorem oneLine_append :
    OneLine (t ++ u) ↔ OneLine t ∧ OneLine u := by
  simp [OneLine]

theorem oneLine_join
    {ts : List String}
    (h : ∀ t ∈ ts, OneLine t) :
    OneLine (String.join ts) := by
  unfold OneLine
  rw [String.toList_join, List.mem_flatMap]
  rintro ⟨t, ht, hmem⟩
  exact h t ht hmem

end OneLine

section Framed

variable {a b count : Nat}
variable {t u : String}

theorem framed_empty :
    Framed 0 "" :=
  ⟨[], by simp, rfl, rfl⟩

theorem OneLine.framed
    (h : OneLine t) :
    Framed 1 (t ++ "\n") :=
  ⟨[t.toList ++ ['\n']], by simpa using ⟨t.toList, h, rfl⟩, by simp, rfl⟩

theorem Framed.append
    (ht : Framed a t)
    (hu : Framed b u) :
    Framed (a + b) (t ++ u) := by
  obtain ⟨ls, hls, hflatten, rfl⟩ := ht
  obtain ⟨ls', hls', hflatten', rfl⟩ := hu
  refine ⟨ls ++ ls', ?_, ?_, List.length_append⟩
  · intro l hl
    rcases List.mem_append.mp hl with hl | hl
    · exact hls l hl
    · exact hls' l hl
  · rw [List.flatten_append, hflatten, hflatten', String.toList_append]

theorem Framed.count_eq
    (h : Framed count t) :
    t.toList.count '\n' = count := by
  obtain ⟨ls, hls, hflatten, rfl⟩ := h
  rw [← hflatten]
  exact count_flatten_of_whole hls

theorem Framed.getLast?_eq
    (h : Framed count t) :
    t = "" ∨ t.toList.getLast? = some '\n' := by
  obtain ⟨ls, hls, hflatten, -⟩ := h
  rw [← String.toList_eq_nil_iff, ← hflatten]
  exact wholeLines_flatten hls

end Framed

section Parts

variable {d : Char}
variable {cs rest w : List Char}

theorem Skips.subset
    (h : Skips cs rest) :
    rest ⊆ cs := by
  obtain ⟨a, -, rfl, -⟩ := h
  exact List.subset_append_right a rest

theorem Trims.subset
    (h : Trims cs w) :
    w ⊆ cs := by
  rw [← trims_iff.mp h]
  exact fun _ hmem => mem_of_mem_trim hmem

theorem Splits.subset
    {ps : List (List Char)}
    (h : Splits d cs ps) :
    ∀ p ∈ ps, p ⊆ cs := by
  induction h with
  | last _ => simp
  | more _ _ ih =>
      rw [List.forall_mem_cons]
      refine ⟨List.subset_append_left _ _, fun p hp => ?_⟩
      intro c hc
      simp [ih p hp hc]

end Parts

end Text

open Text

namespace Declaration

section Parts

variable {line name rest text body : List Char}
variable {edges : List (List Char)}
variable {operation : Option (List Char)}

theorem Heads.subset
    (h : Heads line name rest) :
    name ⊆ line ∧ rest ⊆ line := by
  obtain ⟨-, -, ⟨a, b, -, -, rfl⟩, -⟩ := h
  constructor
  · intro c hc
    simp [hc]
  · intro c hc
    simp [hc]

theorem ReadsEdges.subset
    (h : ReadsEdges text edges body) :
    (∀ e ∈ edges, e ⊆ text) ∧ body ⊆ text := by
  cases h with
  | @listed inside after _ ps ws _ hps hws hbody =>
      have hinside : inside ⊆ '[' :: (inside ++ ']' :: after) := by
        intro c hc
        simp [hc]
      have hafter : after ⊆ '[' :: (inside ++ ']' :: after) := by
        intro c hc
        simp [hc]
      refine ⟨?_, List.Subset.trans hbody.subset hafter⟩
      intro e he
      have hmem : e ∈ ws := by
        split at he
        · cases he
        · exact he
      rw [← forall₂_trims_iff.mp hws] at hmem
      obtain ⟨p, hp, rfl⟩ := List.mem_map.mp hmem
      exact fun c hc => hinside (hps.subset p hp (mem_of_mem_trim hc))
  | absent _ => simp

theorem ReadsOperation.subset
    (h : ReadsOperation body operation) :
    ∀ w ∈ operation, w ⊆ body := by
  cases h with
  | @braced inside leftover w _ hw =>
      intro w' hw'
      obtain rfl : w = w' := by
        split at hw'
        · cases hw'
        · exact Option.some.inj hw'
      intro c hc
      simp [hw.subset hc]
  | absent _ => simp

end Parts

end Declaration

/-- What a declaration says has no line feed in it. -/
structure Entry.OneLine (e : Entry) : Prop where
  name : Text.OneLine e.name
  edges : ∀ next ∈ e.edges, Text.OneLine next
  operation : ∀ text ∈ e.operation, Text.OneLine text

/-- All characters of what a line declares stand on the line. -/
theorem Declaration.Reads.oneLine
    {line : List Char}
    {e : Entry}
    (h : Reads line e)
    (hline : '\n' ∉ line) :
    e.OneLine := by
  obtain ⟨hheads, htext, hedges, hoperation⟩ := h
  obtain ⟨hname, hrest⟩ := hheads.subset
  have htext := List.Subset.trans htext.subset hrest
  obtain ⟨hedges, hbody⟩ := hedges.subset
  have hbody := List.Subset.trans hbody htext
  constructor
  case name =>
    simpa [Text.OneLine] using fun hmem => hline (hname hmem)
  case edges =>
    intro next hnext
    obtain ⟨e, he, rfl⟩ := List.mem_map.mp hnext
    simpa [Text.OneLine] using fun hmem => hline (htext (hedges e he hmem))
  case operation =>
    intro text hmem
    obtain ⟨w, hw, rfl⟩ := Option.map_eq_some_iff.mp hmem
    simpa [Text.OneLine] using fun hmem => hline (hbody (hoperation.subset w hw hmem))

/-- Nodes of programs are declared on one line each. -/
theorem Program.oneLine_of_get?
    {source name : String}
    {n : Node}
    (h : (parse source).get? name = some n) :
    n.entry.OneLine := by
  obtain ⟨_, line, _, d, -, -, hline, hparse, rfl⟩ := exists_declaration h
  rw [Declaration.entry_node]
  refine Declaration.Reads.oneLine (Declaration.map_entry_parse?_iff.mp ?_) hline
  rw [hparse]
  rfl

end GraphMachine
