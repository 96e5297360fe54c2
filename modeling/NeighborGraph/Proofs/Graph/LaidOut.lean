import NeighborGraph.Proofs.Graph.Build
import NeighborGraph.Proofs.Graph.Columns

/-!
# Offsets and degrees of a graph

`CompressedGraph.LaidOut` is what a reader of graph files asks of offsets and degrees: one offset per
node and one behind the last, ascending, the last at the end of the bytes, and one degree per node,
which add up to the number of relationships.  Numbers of relationships are 64-bit words, and adding
degrees goes on from zero beyond the largest word; `LaidOut.count` says so.

`CompressedGraph.Made` are the graphs that callers obtain other than from a file: without
relationships or by building, and with columns added or replaced afterwards.  All of them are laid
out, and their columns are in order (`laidOut_of_made`, `ordered_of_made`).
-/

namespace NeighborGraph

namespace CompressedGraph

/-- Offsets and degrees fit the number of nodes, the number of relationships and the bytes. -/
structure LaidOut (g : CompressedGraph) : Prop where
  offsets : g.offsets.size = g.size + 1
  degrees : g.degrees.size = g.size
  ascending : g.offsets.toList.Pairwise (· ≤ ·)
  stop : g.offsets.toList.getLast? = some (UInt64.ofNat g.adjacency.size)
  fits : g.adjacency.size < UInt64.size
  count : g.relationshipCount = UInt64.ofNat (g.degrees.toList.map UInt32.toNat).sum

theorem laidOut_empty (nodeCount : UInt64) : (empty nodeCount).LaidOut where
  offsets := Array.size_replicate
  degrees := Array.size_replicate
  ascending := by
    show (Array.replicate _ _).toList.Pairwise (· ≤ ·)
    rw [Array.toList_replicate, List.pairwise_replicate]
    exact .inr (UInt64.le_refl 0)
  stop := by
    show (Array.replicate _ _).toList.getLast? = _
    rw [Array.toList_replicate, List.getLast?_replicate, if_neg (Nat.succ_ne_zero _)]
    rfl
  fits := by
    show 0 < UInt64.size
    decide
  count := by
    show 0 = UInt64.ofNat ((Array.replicate _ _).toList.map _).sum
    rw [Array.toList_replicate, List.map_replicate, List.sum_replicate_nat]
    simp

end CompressedGraph

/-! ### Built graphs -/

theorem bytesBefore_mono (lists : List Encoded) {i j : Nat} (le : i ≤ j) :
    bytesBefore lists i ≤ bytesBefore lists j := by
  have part : bytesBefore (lists.take j) i = bytesBefore lists i := by
    rw [bytesBefore, List.take_take, Nat.min_eq_left le, bytesBefore]
  have whole : totalBytes (lists.take j) = bytesBefore lists j := by
    rw [bytesBefore, List.length_flatMap, totalBytes]
  rw [← part, ← whole]
  exact bytesBefore_le _ _

namespace CompressedGraph

/-- The offsets of a graph are the numbers of bytes before its lists. -/
theorem offsets_of_stores {g : CompressedGraph} {lists : List Encoded} (h : g.Stores lists)
    (size : g.offsets.size = lists.length + 1) :
    g.offsets.toList
      = (List.range (lists.length + 1)).map fun index => UInt64.ofNat (bytesBefore lists index) := by
  apply toList_eq_map_range size
  intro index inside
  exact h.offsets index (Nat.le_of_lt_succ inside)

theorem degrees_of_stores {g : CompressedGraph} {lists : List Encoded} (h : g.Stores lists) :
    g.degrees.toList.map UInt32.toNat = lists.map Encoded.degree := by
  rw [h.degrees, List.map_map]
  apply List.map_congr_left
  intro e member
  exact UInt32.toNat_ofNat_of_lt' (Nat.lt_succ_of_le (h.small e member))

theorem laidOut_of_stores {g : CompressedGraph} {lists : List Encoded} (h : g.Stores lists)
    (size : g.offsets.size = lists.length + 1)
    (count : g.relationshipCount = UInt64.ofNat (lists.map Encoded.degree).sum) : g.LaidOut := by
  have offsets := offsets_of_stores h size
  have bytes : g.adjacency.size = totalBytes lists := by
    rw [← Array.length_toList, h.adjacency, List.length_flatMap, totalBytes]
  refine ⟨by rw [size, h.nodes], ?_, ?_, ?_, ?_, ?_⟩
  · rw [← Array.length_toList, h.degrees, List.length_map, h.nodes]
  · rw [offsets, List.pairwise_map]
    refine List.pairwise_lt_range.imp ?_
    intro i j before
    show (UInt64.ofNat _).toNat ≤ (UInt64.ofNat _).toNat
    rw [toNat_offset h.fits, toNat_offset h.fits]
    exact bytesBefore_mono lists (Nat.le_of_lt before)
  · rw [offsets, List.getLast?_map, List.getLast?_range, if_neg (Nat.succ_ne_zero _), bytes,
      ← bytesBefore_all]
    rfl
  · have small := h.fits
    have word : GraphDraft.largestBuffer < UInt64.size := by decide
    omega
  · rw [count, degrees_of_stores h]

end CompressedGraph

namespace GraphDraft

/-- A graph that was built is laid out. -/
theorem laidOut_of_build {nodeCount : UInt64} {steps : List GraphStep} {g : CompressedGraph}
    (built : ((ofNodeCount nodeCount).run steps).build = .ok g) : g.LaidOut := by
  obtain ⟨both, h⟩ := records_run (records_ofNodeCount nodeCount) steps
  obtain ⟨l, rfl, lays, fits⟩ := graphOver_of_build h built
  refine CompressedGraph.laidOut_of_stores (stores_finalLists h lays fits) ?_ lays.relationships
  show (l.offsets.push _).size = _
  rw [Array.size_push, lays.count]

/-- A graph that was built has the columns of its draft. -/
theorem ordered_of_build {nodeCount : UInt64} {steps : List GraphStep} {g : CompressedGraph}
    (built : ((ofNodeCount nodeCount).run steps).build = .ok g) :
    PropertyStore.Ordered g.properties.columns g.size := by
  obtain ⟨both, h⟩ := records_run (records_ofNodeCount nodeCount) steps
  obtain ⟨l, rfl, -, -⟩ := graphOver_of_build h built
  exact ordered_run (PropertyStore.ordered_nil _) steps

end GraphDraft

/-! ### Graphs that callers make -/

namespace CompressedGraph

/-- Graphs without relationships, graphs that were built, and such graphs with columns added or
replaced. -/
inductive Made : CompressedGraph → Prop
  | empty (nodeCount : UInt64) : Made (empty nodeCount)
  | built {nodeCount : UInt64} {steps : List GraphStep} {g : CompressedGraph}
    (done : ((GraphDraft.ofNodeCount nodeCount).run steps).build = .ok g) : Made g
  | described {g g' : CompressedGraph} {name : String} {column : Column} (made : Made g)
    (done : g.withColumn name column = .ok g') : Made g'

/-- A column changes nothing but the columns. -/
theorem withColumn_cases {g g' : CompressedGraph} {name : String} {column : Column}
    (done : g.withColumn name column = .ok g') :
    ∃ properties, g.properties.insert name column g.size = .ok properties
      ∧ g' = { g with properties } := by
  rw [withColumn] at done
  cases inserted : g.properties.insert name column g.size with
  | error fault =>
    rw [inserted] at done
    cases done
  | ok properties =>
    rw [inserted] at done
    cases done
    exact ⟨properties, rfl, rfl⟩

theorem laidOut_of_made {g : CompressedGraph} (made : g.Made) : g.LaidOut := by
  induction made with
  | empty nodeCount => exact laidOut_empty nodeCount
  | built done => exact GraphDraft.laidOut_of_build done
  | described _ done ih =>
    obtain ⟨properties, -, rfl⟩ := withColumn_cases done
    exact ⟨ih.offsets, ih.degrees, ih.ascending, ih.stop, ih.fits, ih.count⟩

theorem ordered_of_made {g : CompressedGraph} (made : g.Made) :
    PropertyStore.Ordered g.properties.columns g.size := by
  induction made with
  | empty nodeCount => exact PropertyStore.ordered_nil _
  | built done => exact GraphDraft.ordered_of_build done
  | described _ done ih =>
    obtain ⟨properties, inserted, rfl⟩ := withColumn_cases done
    exact PropertyStore.ordered_insert ih inserted

end CompressedGraph

end NeighborGraph
