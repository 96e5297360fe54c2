import Mathlib.Algebra.Order.BigOperators.Group.List
import Mathlib.Algebra.Order.Group.Nat
import NeighborGraph.Proofs.Codec.Size
import NeighborGraph.Proofs.Graph.Opened

/-!
# Built graphs keep within their footprint

A footprint is computed from the number of nodes and the number of relationships alone; what a graph
takes depends on how relationships are spread over nodes and on every gap between targets.  Lists
are laid out without anything between them, so the bounds of each list add up to bounds for all
(`spans_lists`), whatever the degrees are (`contains_of_stores`).

A graph that is read from its file takes the same bytes, so its footprint is right as well.
-/

namespace NeighborGraph

/-! ### Lists -/

theorem length_ofFinal (mode : Mode) (withProperties : Bool) (final : List (UInt64 × Binary64)) :
    (Encoded.ofFinal mode withProperties final).bytes.length
      = (Adjacency.bytesOf mode (final.map (·.1)) []).length
        + (if withProperties then final.length * 8 else 0) := by
  cases withProperties with
  | false => rfl
  | true =>
    show (Adjacency.bytesOf mode (final.map (·.1)) (final.map (·.2))).length = _
    rw [length_bytesOf, if_pos rfl]
    exact congrArg (_ + · * 8) (List.length_map _)

namespace Footprint

/-- Lists that were written keep within the footprint of their nodes. -/
theorem spans_lists {mode : Mode} {withProperties : Bool} {lists : List Encoded}
    (written : ∀ e ∈ lists, ∃ final, e = Encoded.ofFinal mode withProperties final) :
    ∃ bytes, Spans mode lists.length (lists.map Encoded.degree).sum bytes
      ∧ totalBytes lists
        = bytes + (if withProperties then (lists.map Encoded.degree).sum * 8 else 0) := by
  induction lists with
  | nil =>
    refine ⟨0, spans_nil mode, ?_⟩
    cases withProperties <;> rfl
  | cons e lists ih =>
    obtain ⟨bytes, spans, total⟩ :=
      ih fun other member => written other (List.mem_cons_of_mem _ member)
    obtain ⟨final, rfl⟩ := written _ List.mem_cons_self
    have list := spans_list mode (final.map (·.1))
    have length := length_ofFinal mode withProperties final
    have degree : (Encoded.ofFinal mode withProperties final).degree = final.length :=
      List.length_map _
    rw [List.length_map] at list
    refine ⟨bytes + (Adjacency.bytesOf mode (final.map (·.1)) []).length, ?_, ?_⟩
    · rw [List.length_cons, List.map_cons, List.sum_cons, degree, Nat.add_comm final.length]
      exact spans_add spans list
    · rw [totalBytes, List.map_cons, List.sum_cons, List.map_cons, List.sum_cons, degree, length,
        ← totalBytes, total]
      cases withProperties with
      | false =>
        simp only [Bool.false_eq_true, if_false]
        omega
      | true =>
        simp only [if_true]
        omega

end Footprint

/-! ### Graphs -/

namespace CompressedGraph

/-- What a graph takes is in the range that is estimated for a graph of its kind with so many
relationships, and the range is a single number if its lists are plain. -/
structure WithinFootprint (g : CompressedGraph) (relationships : Nat) : Prop where
  contained :
    (Footprint.ofGraph g.size relationships g.mode g.withProperties).contains g.byteSize = true
  exactly : g.mode = .plain →
    (Footprint.ofGraph g.size relationships g.mode g.withProperties).min
      = (Footprint.ofGraph g.size relationships g.mode g.withProperties).max

/-- A graph over lists that were written keeps within its footprint. -/
theorem withinFootprint_of_stores {g : CompressedGraph} {lists : List Encoded}
    (stores : g.Stores lists) (offsets : g.offsets.size = lists.length + 1)
    (written : ∀ e ∈ lists, ∃ final, e = Encoded.ofFinal g.mode g.withProperties final) :
    g.WithinFootprint (lists.map Encoded.degree).sum := by
  obtain ⟨bytes, spans, total⟩ := Footprint.spans_lists written
  have adjacency : g.adjacency.size = totalBytes lists := by
    rw [← Array.length_toList, stores.adjacency, List.length_flatMap, totalBytes]
  have degrees : g.degrees.size = lists.length := by
    rw [← Array.length_toList, stores.degrees, List.length_map]
  refine ⟨?_, ?_⟩
  · rw [byteSize, adjacency, total, offsets, degrees, ← stores.nodes, Nat.add_assoc]
    exact Footprint.contains_add
      (Footprint.contains_add spans.contained (Footprint.contains_of _)) (Footprint.contains_of _)
  · intro plain
    rw [plain]
    rfl

end CompressedGraph

/-! ### How much is recorded -/

theorem length_directions_le (nodeCount : UInt64) (undirected : Bool) (source target : UInt64)
    (property : Option Binary64) :
    (directions nodeCount undirected source target property).length ≤ 2 := by
  rw [directions]
  split
  · split <;> simp only [List.length_cons, List.length_nil] <;> omega
  · exact Nat.zero_le 2

/-- A step records at most both directions of one relationship. -/
theorem length_recorded_le (nodeCount : UInt64) (undirected : Bool) (steps : List GraphStep) :
    (recorded nodeCount undirected steps).length ≤ 2 * steps.length := by
  induction steps generalizing undirected with
  | nil => exact Nat.zero_le 0
  | cons step rest ih =>
    have behind := ih (step.bothWays undirected)
    have first : (step.adds nodeCount undirected).length ≤ 2 := by
      cases step with
      | relate source target => exact length_directions_le _ _ _ _ _
      | relateWith source target property => exact length_directions_le _ _ _ _ _
      | _ => exact Nat.zero_le 2
    rw [recorded, List.length_append, List.length_cons]
    omega

/-- What was recorded from nodes up to one is what was recorded from those before, and from it. -/
theorem length_recordedFrom_add (records : List Recorded) (node : UInt64) :
    (records.filter fun r => decide (r.source.toNat < node.toNat)).length
        + (recordedFrom node records).length
      = (records.filter fun r => decide (r.source.toNat < node.toNat + 1)).length := by
  rw [recordedFrom, List.length_map]
  induction records with
  | nil => rfl
  | cons r records ih =>
    simp only [List.filter_cons, decide_eq_true_eq, ← UInt64.toNat_inj] at *
    rcases Nat.lt_trichotomy r.source.toNat node.toNat with before | own | behind
    · rw [if_pos before, if_neg (by omega), if_pos (by omega), List.length_cons, List.length_cons]
      omega
    · rw [if_neg (by omega), if_pos own, if_pos (by omega), List.length_cons, List.length_cons]
      omega
    · rw [if_neg (by omega), if_neg (by omega), if_neg (by omega)]
      exact ih

/-- Nodes share what was recorded: every relationship has one source. -/
theorem sum_recordedFrom (records : List Recorded) {count : Nat} (nodes : count ≤ UInt64.size) :
    ((List.range count).map fun node => (recordedFrom (UInt64.ofNat node) records).length).sum
      = (records.filter fun r => decide (r.source.toNat < count)).length := by
  induction count with
  | zero =>
    have none : (records.filter fun r => decide (r.source.toNat < 0)) = [] := by
      rw [List.filter_eq_nil_iff]
      intro r _
      simp
    rw [none]
    rfl
  | succ count ih =>
    have before := ih (Nat.le_of_succ_le nodes)
    have step := length_recordedFrom_add records (UInt64.ofNat count)
    have word : (UInt64.ofNat count).toNat = count := UInt64.toNat_ofNat_of_lt' nodes
    rw [word] at step
    rw [List.range_succ, List.map_append, List.sum_append, before, ← step]
    rfl

theorem sum_recordedFrom_le (records : List Recorded) {count : Nat} (nodes : count ≤ UInt64.size) :
    ((List.range count).map fun node => (recordedFrom (UInt64.ofNat node) records).length).sum
      ≤ records.length := by
  rw [sum_recordedFrom records nodes]
  exact List.length_filter_le _ _

namespace GraphDraft

/-- Lists hold no more than what was recorded. -/
theorem sum_degrees_finalLists_le (b : GraphDraft) (nodeCount : UInt64) (records : List Recorded) :
    ((b.finalLists nodeCount records).map Encoded.degree).sum ≤ records.length := by
  refine Nat.le_trans ?_
    (sum_recordedFrom_le records (Nat.le_of_lt nodeCount.toNat_lt))
  rw [finalLists, List.map_map]
  apply List.sum_le_sum
  intro node _
  have length := congrArg List.length (targets_finalList b.aggregation records (UInt64.ofNat node))
  simp only [List.length_map] at length
  show ((finalList b.aggregation records (UInt64.ofNat node)).map (·.1)).length ≤ _
  rw [List.length_map, length]
  exact b.aggregation.length_answer_le _

/-- A graph built by any steps takes as many bytes as was estimated from its dimensions, and so does
the graph that is read back from its file.

The number of relationships is a word.  It is the sum of the degrees unless that outgrows the word,
which takes more steps than there are numbers for. -/
theorem build_within_footprint {nodeCount : UInt64} {steps : List GraphStep} {g : CompressedGraph}
    (built : ((ofNodeCount nodeCount).run steps).build = .ok g) :
    let total := ((List.range g.size).map fun node => g.degree (UInt64.ofNat node)).sum
    g.relationshipCount = UInt64.ofNat total
      ∧ (steps.length < 2 ^ 63 → g.relationshipCount.toNat = total)
      ∧ g.WithinFootprint total
      ∧ ∀ file, GraphFile.write g = .ok file →
          ∃ opened, GraphFile.decode file = .ok opened
            ∧ opened.size = g.size ∧ opened.relationshipCount = g.relationshipCount
            ∧ opened.mode = g.mode ∧ opened.withProperties = g.withProperties
            ∧ opened.WithinFootprint total := by
  intro total
  have laidOut := laidOut_of_build built
  have ordered := ordered_of_build built
  obtain ⟨both, h⟩ := records_run (records_ofNodeCount nodeCount) steps
  rw [List.nil_append] at h
  obtain ⟨l, rfl, lays, fits⟩ := graphOver_of_build h built
  have stores := stores_finalLists h lays fits
  have degrees : total = ((((ofNodeCount nodeCount).run steps).finalLists nodeCount
      (recorded nodeCount false steps)).map Encoded.degree).sum :=
    congrArg List.sum ((CompressedGraph.degrees_of_laidOut laidOut).symm.trans
      (CompressedGraph.degrees_of_stores stores))
  have few : total ≤ 2 * steps.length := by
    rw [degrees]
    exact Nat.le_trans (sum_degrees_finalLists_le _ _ _) (length_recorded_le _ _ _)
  have count := (CompressedGraph.relationshipCount_of_laidOut laidOut).1
  have within : (graphOver ((ofNodeCount nodeCount).run steps) l).WithinFootprint total := by
    rw [degrees]
    apply CompressedGraph.withinFootprint_of_stores stores
    · rw [laidOut.offsets, stores.nodes]
    · intro e member
      obtain ⟨node, -, rfl⟩ := List.mem_map.mp member
      exact ⟨_, congrArg (Encoded.ofFinal _ · _) h.properties.symm⟩
  refine ⟨count, ?_, within, ?_⟩
  · intro short
    rw [count]
    exact UInt64.toNat_ofNat_of_lt' (show total < 2 ^ 64 by omega)
  · intro file written
    obtain ⟨described, small, rfl⟩ := GraphFile.write_eq_ok.mp written
    exact ⟨_, GraphFile.decode_encode laidOut ordered described small, rfl, rfl, rfl, rfl,
      within.contained, within.exactly⟩

theorem build_within_footprint_triangle :
    ((ofNodeCount 3).run triangle).build = .ok triangleGraph
      ∧ triangleGraph.relationshipCount.toNat = 4 ∧ triangleGraph.WithinFootprint 4 := by
  obtain ⟨-, count, within, -⟩ := build_within_footprint build_triangle
  exact ⟨build_triangle, count (by decide), within⟩

end GraphDraft

end NeighborGraph
