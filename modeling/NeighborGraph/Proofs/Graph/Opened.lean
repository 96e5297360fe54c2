import NeighborGraph.Proofs.Graph.Calls
import NeighborGraph.Proofs.Graph.File

/-!
# Opened graphs are safe to query

A file that is accepted need not have been written by this library: its lists may be any bytes, and
a degree may promise more than they hold.  What a reader checks is enough all the same.  The graph is
laid out (`laidOut_of_decode`), so every node has a slice of the bytes and a cursor, and over any
bytes a cursor keeps its counters in step.  What is left to go wrong is that a list does not decode.

The number of relationships is checked against the degrees added up in one word, and that sum is not
checked for a carry.  Up to 2^32 nodes there is none; two nodes more are enough for one, and then a
file is accepted whose degrees add up to more than it says (`degrees_beyond_word`).
-/

namespace NeighborGraph

/-- The computation succeeds, or meets a list that does not decode. -/
def FailsOnlyDecoding {α : Type} : Checked α → Prop
  | .ok _ => True
  | .error fault => ∃ cause, fault = .corruptEncoding cause

/-! ### Cursors -/

namespace Cursor

/-- No counter of the cursor runs out, and no loop over targets is cut short by a count of calls. -/
structure Safe (c : Cursor) (degree : Nat) : Prop where
  inStep : c.InStep degree
  seek_ends : ∀ accept more, c.seek accept (c.remaining + 1 + more) = c.seek accept (c.remaining + 1)
  take_ends : ∀ more, c.take (c.remaining + 1 + more) = c.take (c.remaining + 1)

theorem safe_of_inStep {c : Cursor} {degree : Nat} (h : c.InStep degree) : c.Safe degree where
  inStep := h
  seek_ends accept more := seek_of_enough accept h (by omega)
  take_ends more := take_of_enough h (by omega)

end Cursor

namespace CompressedGraph

theorem failsOnlyDecoding_decoded {α : Type} (r : Except EncodingFault α) :
    FailsOnlyDecoding (decoded r) := by
  cases r with
  | ok a => exact trivial
  | error cause => exact ⟨cause, rfl⟩

/-- One thing after the other fails only where one of them does. -/
theorem failsOnlyDecoding_forM {α : Type} {f : α → Checked Unit} {items : List α}
    (each : ∀ item ∈ items, FailsOnlyDecoding (f item)) : FailsOnlyDecoding (items.forM f) := by
  induction items with
  | nil => exact trivial
  | cons item items ih =>
    have first := each item List.mem_cons_self
    have others := ih fun other member => each other (List.mem_cons_of_mem _ member)
    show FailsOnlyDecoding (f item >>= fun _ => items.forM f)
    cases step : f item with
    | ok done => exact others
    | error fault =>
      rw [step] at first
      exact first

/-! ### Queries over a layout -/

/-- Queries about a node find a slice of the bytes, and fail only where it does not decode.  Calls on
a cursor have no faults but those of the encoding, so of them only the counters are asked. -/
structure SafeAt (g : CompressedGraph) (node : UInt64) : Prop where
  slice : ∃ start stop, g.offsets[node.toNat]? = some start
    ∧ g.offsets[node.toNat + 1]? = some stop ∧ start ≤ stop ∧ stop.toNat ≤ g.adjacency.size
  cursor : ∃ c, g.cursor node = .ok c ∧ ∀ calls, (c.after calls).Safe (g.degree node)
  neighbors : FailsOnlyDecoding (g.neighbors node)
  relationships : FailsOnlyDecoding (g.relationships node)
  neighborAt : ∀ index, FailsOnlyDecoding (g.neighborAt node index)
  contains : ∀ target, FailsOnlyDecoding (g.contains node target)

section Layout

variable {g : CompressedGraph} (laidOut : g.LaidOut)

include laidOut

/-- The slice of a node lies inside the bytes. -/
theorem slice_of_laidOut {node : Nat} (inside : node < g.size) :
    ∃ start stop, g.offsets[node]? = some start ∧ g.offsets[node + 1]? = some stop
      ∧ start ≤ stop ∧ stop.toNat ≤ g.adjacency.size := by
  have size := laidOut.offsets
  have ascending := List.pairwise_iff_getElem.mp laidOut.ascending
  have stop := laidOut.stop
  have word := UInt64.toNat_ofNat_of_lt' laidOut.fits
  rw [List.getLast?_eq_getElem?, Array.length_toList, size, Nat.add_sub_cancel,
    Array.getElem?_toList, Array.getElem?_eq_some_iff] at stop
  obtain ⟨_, last⟩ := stop
  refine ⟨g.offsets[node], g.offsets[node + 1], Array.getElem?_eq_getElem _,
    Array.getElem?_eq_getElem _, ?_, ?_⟩
  · exact ascending node (node + 1) (by rw [Array.length_toList]; omega)
      (by rw [Array.length_toList]; omega) (Nat.lt_succ_self node)
  · rw [← word, ← last]
    rcases Nat.lt_or_eq_of_le (show node + 1 ≤ g.size from inside) with before | at_end
    · exact ascending (node + 1) g.size (by rw [Array.length_toList]; omega)
        (by rw [Array.length_toList]; omega) before
    · simp only [at_end]
      exact UInt64.le_refl _

/-- There is a cursor at the front of the list of every node. -/
theorem cursor_of_laidOut {node : UInt64} (inside : node < g.nodeCount) :
    ∃ c, g.cursor node = .ok c ∧ c.InStep (g.degree node) ∧ c.remaining = g.degree node := by
  obtain ⟨start, stop, first, last, ordered, bounded⟩ := slice_of_laidOut laidOut
    (show node.toNat < g.size from inside)
  have bytes : ∃ bytes, g.listBytes node = .ok bytes := by
    rw [listBytes, if_pos inside, first, last]
    exact ⟨_, if_pos ⟨ordered, bounded⟩⟩
  obtain ⟨bytes, found⟩ := bytes
  have front : g.cursor node = .ok (Cursor.start bytes
      (Decoder.start g.mode (g.degree node) bytes.length g.withProperties) g.withProperties) := by
    rw [cursor, found]
    rfl
  exact ⟨_, front, Cursor.inStep_start _ _ _ _ _, Cursor.remaining_start _ _ _ _ _⟩

/-- Every query about a node finds its bytes; it fails only if they do not decode. -/
theorem safeAt_of_laidOut {node : UInt64} (inside : node < g.nodeCount) : g.SafeAt node := by
  obtain ⟨c, front, inStep, -⟩ := cursor_of_laidOut laidOut inside
  refine ⟨slice_of_laidOut laidOut inside, ⟨c, front, ?_⟩, ?_, ?_, ?_, ?_⟩
  · intro calls
    exact Cursor.safe_of_inStep (Cursor.inStep_after inStep calls)
  · rw [neighbors, front]
    exact failsOnlyDecoding_decoded _
  · rw [relationships, front]
    exact failsOnlyDecoding_decoded _
  · intro index
    rw [neighborAt, front]
    split
    · exact trivial
    · exact failsOnlyDecoding_decoded _
  · intro target
    rw [contains, front]
    show FailsOnlyDecoding ((decoded (c.seekTo target).1).map _)
    cases (c.seekTo target).1 with
    | ok found => exact trivial
    | error cause => exact ⟨cause, rfl⟩

/-- A list with a target that cannot be decoded cannot be decoded as a whole, for the same reason. -/
theorem neighbors_of_neighborAt_error {node : UInt64} (inside : node < g.nodeCount) {index : Nat}
    {fault : Fault} (failed : g.neighborAt node index = .error fault) :
    ∃ cause, fault = .corruptEncoding cause ∧ g.neighbors node = .error (.corruptEncoding cause) := by
  obtain ⟨c, front, -, whole⟩ := cursor_of_laidOut laidOut inside
  rw [neighborAt, front] at failed
  split at failed
  · cases failed
  · next below =>
    rcases jumped : c.jump index with ⟨cause | answer, c'⟩
    · simp only [jumped, decoded, Except.mapError, Except.error.injEq] at failed
      refine ⟨cause, failed.symm, ?_⟩
      rw [neighbors, front]
      simp only [Cursor.drain_of_jump_error jumped (whole ▸ Nat.not_le.mp below), decoded,
        Except.mapError]
    · simp only [jumped, decoded, Except.mapError, reduceCtorEq] at failed

/-- A list that decodes has as many targets as its degree says. -/
theorem checkList_of_laidOut {node : UInt64} (inside : node < g.nodeCount) :
    FailsOnlyDecoding (g.checkList node) := by
  obtain ⟨c, front, inStep, whole⟩ := cursor_of_laidOut laidOut inside
  rw [checkList, neighbors, front]
  rcases Cursor.drain_cases inStep with ⟨targets, drained, length⟩ | ⟨cause, failed⟩
  · simp only [drained, decoded, Except.mapError, length, whole, if_true]
    exact trivial
  · simp only [failed, decoded, Except.mapError]
    exact ⟨cause, rfl⟩

theorem validate_of_laidOut : FailsOnlyDecoding g.validate := by
  apply failsOnlyDecoding_forM
  intro node member
  exact checkList_of_laidOut laidOut (GraphDraft.ofNat_node_lt (List.mem_range.mp member))

/-! ### Degrees -/

theorem degrees_of_laidOut :
    g.degrees.toList.map UInt32.toNat
      = (List.range g.size).map fun node => g.degree (UInt64.ofNat node) := by
  rw [← Array.toList_map]
  apply toList_eq_map_range (Array.size_map.trans laidOut.degrees)
  intro node inside
  have known : node < g.degrees.size := laidOut.degrees ▸ inside
  rw [Array.getElem?_map, degree, GraphDraft.toNat_node inside, Array.getElem?_eq_getElem known]
  rfl

end Layout

theorem sum_degrees_le (degrees : List UInt32) :
    (degrees.map UInt32.toNat).sum ≤ degrees.length * GraphDraft.largestDegree := by
  induction degrees with
  | nil => exact Nat.zero_le _
  | cons degree degrees ih =>
    have word := degree.toNat_lt
    have largest : GraphDraft.largestDegree + 1 = 2 ^ 32 := rfl
    rw [List.map_cons, List.sum_cons, List.length_cons, Nat.succ_mul]
    omega

/-- The number of relationships is the sum of the degrees in a word, and the sum itself exactly if that
fits a word, as it does up to 2^32 nodes. -/
theorem relationshipCount_of_laidOut {g : CompressedGraph} (laidOut : g.LaidOut) :
    let sum := ((List.range g.size).map fun node => g.degree (UInt64.ofNat node)).sum
    g.relationshipCount = UInt64.ofNat sum
      ∧ (g.relationshipCount.toNat = sum ↔ sum < UInt64.size)
      ∧ (g.size ≤ 2 ^ 32 → g.relationshipCount.toNat = sum) := by
  intro sum
  have total : (g.degrees.toList.map UInt32.toNat).sum = sum :=
    congrArg List.sum (degrees_of_laidOut laidOut)
  have count : g.relationshipCount = UInt64.ofNat sum := by
    rw [← total]
    exact laidOut.count
  have exact_iff : g.relationshipCount.toNat = sum ↔ sum < UInt64.size := by
    constructor
    · intro same
      rw [← same]
      exact g.relationshipCount.toNat_lt
    · intro small
      rw [count]
      exact UInt64.toNat_ofNat_of_lt' small
  refine ⟨count, exact_iff, fun few => exact_iff.mpr ?_⟩
  have bound := sum_degrees_le g.degrees.toList
  rw [Array.length_toList, laidOut.degrees, total] at bound
  have small : g.size * GraphDraft.largestDegree ≤ 2 ^ 32 * GraphDraft.largestDegree :=
    Nat.mul_le_mul_right _ few
  have word : 2 ^ 32 * GraphDraft.largestDegree < UInt64.size := by decide
  omega

theorem cursor_of_outside (g : CompressedGraph) {node : UInt64} (outside : g.nodeCount ≤ node) :
    g.cursor node = .error (.invalidArgument (.nodeOutOfRange node.toNat g.nodeCount.toNat)) := by
  rw [cursor, listBytes, if_neg (UInt64.not_lt.mpr outside)]
  rfl

end CompressedGraph

/-! ### Opened graphs -/

namespace GraphFile

/-- A graph that was read is made of the sections of the file and the columns of its description. -/
theorem decode_cases {bytes : List UInt8} {g : CompressedGraph} (accepted : decode bytes = .ok g) :
    ∃ h d adjacency properties, decodeSections bytes = .ok (h, d, adjacency)
      ∧ insertColumns h.nodeCount.toNat d.columns = .ok properties
      ∧ g = {
          mode := h.mode, nodeCount := h.nodeCount, relationshipCount := h.relationshipCount
          withProperties := h.withProperties, offsets := d.offsets.toArray
          degrees := d.degrees.toArray, adjacency := adjacency.toArray, mapped := true
          properties } := by
  rw [decode] at accepted
  cases sections : decodeSections bytes with
  | error fault =>
    rw [sections] at accepted
    cases accepted
  | ok found =>
    obtain ⟨h, d, adjacency⟩ := found
    rw [sections] at accepted
    dsimp only at accepted
    cases columns : insertColumns h.nodeCount.toNat d.columns with
    | error fault =>
      rw [columns] at accepted
      cases accepted
    | ok properties =>
      rw [columns] at accepted
      cases accepted
      exact ⟨h, d, adjacency, properties, rfl, columns, rfl⟩

/-- A graph that was read is laid out. -/
theorem laidOut_of_decode {bytes : List UInt8} {g : CompressedGraph}
    (accepted : decode bytes = .ok g) : g.LaidOut := by
  obtain ⟨h, d, adjacency, properties, sections, -, rfl⟩ := decode_cases accepted
  obtain ⟨-, size, -, -, layout, rest⟩ := (decodeSections_eq_ok _ _ _ _).mp sections
  obtain ⟨offsets, degrees, ascending, stop, sum⟩ := (checkLayout_eq_ok h d).mp layout
  obtain ⟨length, -⟩ := (fileSize_eq_ok _ _).mp size
  have left : adjacency.length = h.adjacencySize.toNat := by
    rw [rest, List.length_drop, List.length_drop]
    omega
  have word : UInt64.ofNat adjacency.length = h.adjacencySize := by
    rw [left, UInt64.ofNat_toNat]
  refine ⟨offsets, degrees, ascending, ?_, ?_, sum.symm⟩
  · rw [stop, ← word]
    rfl
  · show adjacency.length < UInt64.size
    rw [left]
    exact h.adjacencySize.toNat_lt

/-- The columns of a graph that was read are in order, even if those of the file were not. -/
theorem ordered_of_decode {bytes : List UInt8} {g : CompressedGraph}
    (accepted : decode bytes = .ok g) : PropertyStore.Ordered g.properties.columns g.size := by
  obtain ⟨h, d, adjacency, properties, -, inserted, rfl⟩ := decode_cases accepted
  exact ordered_insertColumns inserted

/-- Every query of a graph that was read either answers or meets a list that does not decode: the
slice of every node lies inside the bytes, only nodes outside the graph are refused, and a list that
decodes has as many targets as its degree says.  The degrees add up to the number of relationships
exactly if their sum fits a word. -/
theorem opened_is_safe {bytes : List UInt8} {g : CompressedGraph}
    (accepted : decode bytes = .ok g) :
    let sum := ((List.range g.size).map fun node => g.degree (UInt64.ofNat node)).sum
    (∀ node < g.nodeCount, g.SafeAt node)
      ∧ (∀ node, g.nodeCount ≤ node → g.cursor node
        = .error (.invalidArgument (.nodeOutOfRange node.toNat g.nodeCount.toNat)))
      ∧ g.relationshipCount = UInt64.ofNat sum
      ∧ (g.relationshipCount.toNat = sum ↔ sum < UInt64.size)
      ∧ (g.size ≤ 2 ^ 32 → g.relationshipCount.toNat = sum)
      ∧ FailsOnlyDecoding g.validate := by
  have laidOut := laidOut_of_decode accepted
  obtain ⟨count, exact_iff, exact_of_few⟩ := CompressedGraph.relationshipCount_of_laidOut laidOut
  exact ⟨fun node inside => CompressedGraph.safeAt_of_laidOut laidOut inside,
    fun node outside => g.cursor_of_outside outside, count, exact_iff, exact_of_few,
    CompressedGraph.validate_of_laidOut laidOut⟩

/-- A node whose only word of eight bytes has but one. -/
def truncatedGraph : CompressedGraph where
  mode := .plain
  nodeCount := 1
  relationshipCount := 1
  withProperties := false
  offsets := #[0, 1]
  degrees := #[1]
  adjacency := #[7]
  mapped := true

theorem opened_is_safe_truncated :
    ∃ bytes, decode bytes = .ok truncatedGraph ∧ truncatedGraph.SafeAt 0
      ∧ truncatedGraph.neighbors 0 = .error (.corruptEncoding (.wordPastEnd 0 1))
      ∧ FailsOnlyDecoding truncatedGraph.validate := by
  have laidOut : truncatedGraph.LaidOut :=
    ⟨rfl, rfl, by decide, rfl, by decide, rfl⟩
  have described : (describe truncatedGraph).encode.length = 44 := by decide +kernel
  have length : (encode truncatedGraph).length = 93 := by
    rw [length_encode, described]
    rfl
  have accepted : decode (encode truncatedGraph) = .ok truncatedGraph :=
    decode_encode laidOut (PropertyStore.ordered_nil _) (by rw [described]; decide)
      (by rw [length]; decide)
  obtain ⟨safe, -, -, -, -, validated⟩ := opened_is_safe accepted
  exact ⟨_, accepted, safe 0 (by decide), rfl, validated⟩

/-! ### Degrees beyond a word -/

/-- Nodes that all have one degree, and no bytes for their lists. -/
def hollowGraph (nodeCount : UInt64) (degree : UInt32) : CompressedGraph where
  mode := .plain
  nodeCount
  relationshipCount := UInt64.ofNat (nodeCount.toNat * degree.toNat)
  withProperties := false
  offsets := Array.replicate (nodeCount.toNat + 1) 0
  degrees := Array.replicate nodeCount.toNat degree
  adjacency := #[]
  mapped := true

theorem sum_hollow (nodeCount : UInt64) (degree : UInt32) :
    ((hollowGraph nodeCount degree).degrees.toList.map UInt32.toNat).sum
      = nodeCount.toNat * degree.toNat := by
  rw [hollowGraph, Array.toList_replicate, List.map_replicate, List.sum_replicate_nat]

theorem laidOut_hollow (nodeCount : UInt64) (degree : UInt32) :
    (hollowGraph nodeCount degree).LaidOut where
  offsets := Array.size_replicate
  degrees := Array.size_replicate
  ascending := (CompressedGraph.laidOut_empty nodeCount).ascending
  stop := (CompressedGraph.laidOut_empty nodeCount).stop
  fits := (CompressedGraph.laidOut_empty nodeCount).fits
  count := congrArg UInt64.ofNat (sum_hollow nodeCount degree).symm

/-- A file takes twelve bytes for each node without a list. -/
theorem length_hollow (nodeCount : UInt64) (degree : UInt32) :
    (describe (hollowGraph nodeCount degree)).encode.length = nodeCount.toNat * 12 + 32
      ∧ (encode (hollowGraph nodeCount degree)).length = nodeCount.toNat * 12 + 80 := by
  have described : (describe (hollowGraph nodeCount degree)).encode.length
      = nodeCount.toNat * 12 + 32 := by
    rw [describe, hollowGraph, FileDescription.length_encode_bare, Array.toList_replicate,
      Array.toList_replicate, List.length_replicate, List.length_replicate]
    omega
  have none : (hollowGraph nodeCount degree).adjacency.toList.length = 0 := rfl
  refine ⟨described, ?_⟩
  rw [length_encode, described, none, headerSize]
  omega

/-- Whatever the degrees add up to, the file is accepted. -/
theorem decode_hollow {nodeCount : UInt64} (degree : UInt32)
    (fits : nodeCount.toNat * 12 + 80 ≤ largestFile) :
    decode (encode (hollowGraph nodeCount degree)) = .ok (hollowGraph nodeCount degree) := by
  obtain ⟨described, length⟩ := length_hollow nodeCount degree
  have buffer : largestFile ≤ GraphDraft.largestBuffer := by decide
  exact decode_encode (laidOut_hollow nodeCount degree) (PropertyStore.ordered_nil _)
    (by omega) (by omega)

/-- Two nodes more than 2^32, all of the largest degree. -/
def crowdedGraph : CompressedGraph := hollowGraph 4294967298 4294967295

/-- With so many nodes the sum carries: the file says 2^32 - 2 relationships, the degrees say 2^64
more, and the file is accepted. -/
theorem degrees_beyond_word :
    decode (encode crowdedGraph) = .ok crowdedGraph
      ∧ crowdedGraph.relationshipCount = 4294967294
      ∧ ((List.range crowdedGraph.size).map fun node => crowdedGraph.degree (UInt64.ofNat node)).sum
        = 18446744078004518910 := by
  have laidOut : crowdedGraph.LaidOut := laidOut_hollow _ _
  refine ⟨decode_hollow _ (by decide), rfl, ?_⟩
  rw [← CompressedGraph.degrees_of_laidOut laidOut]
  exact sum_hollow _ _

end GraphFile

/-! ### Graphs that callers hold -/

namespace CompressedGraph

/-- Graphs that callers made, graphs that were read from a file, and such graphs with columns added
or replaced. -/
inductive Held : CompressedGraph → Prop
  | made {g : CompressedGraph} (made : Made g) : Held g
  | opened {g : CompressedGraph} {bytes : List UInt8} (read : GraphFile.decode bytes = .ok g) : Held g
  | described {g g' : CompressedGraph} {name : String} {column : Column} (held : Held g)
    (done : g.withColumn name column = .ok g') : Held g'

theorem laidOut_of_held {g : CompressedGraph} (held : g.Held) : g.LaidOut := by
  induction held with
  | made made => exact laidOut_of_made made
  | opened read => exact GraphFile.laidOut_of_decode read
  | described _ done ih =>
    obtain ⟨properties, -, rfl⟩ := withColumn_cases done
    exact ⟨ih.offsets, ih.degrees, ih.ascending, ih.stop, ih.fits, ih.count⟩

theorem ordered_of_held {g : CompressedGraph} (held : g.Held) :
    PropertyStore.Ordered g.properties.columns g.size := by
  induction held with
  | made made => exact ordered_of_made made
  | opened read => exact GraphFile.ordered_of_decode read
  | described _ done ih =>
    obtain ⟨properties, inserted, rfl⟩ := withColumn_cases done
    exact PropertyStore.ordered_insert ih inserted

end CompressedGraph

end NeighborGraph
