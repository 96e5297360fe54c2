import NeighborGraph.Proofs.Graph.Layout
import NeighborGraph.Proofs.Graph.Steps

/-!
# Graphs answer for the relationships they were built from

`finalList` is the list of a node as a plain record of the relationships would give it: what was
recorded from the node, sorted and aggregated, with NaN throughout when no property was ever brought.

`CompressedGraph.Answers` says that every query about a node agrees with such a list.  Queries walk
an encoded list, so they answer for whatever list its cursor has ahead (`reads_of_walk`); only the
test for a single relationship stops early, which is right because lists are in ascending order
(`answers_of_reads`).
`graphOver_of_build` and `cursor_graphOver` join this to the steps that were taken.
-/

namespace NeighborGraph

/-! ### Final lists -/

/-- The relationships recorded from a node, sorted and aggregated. -/
def finalList (aggregation : Aggregation) (records : List Recorded) (node : UInt64) :
    List (UInt64 × Binary64) :=
  let final := aggregation.answer (recordedFrom node records)
  if anyProperty records then final else final.map fun p => (p.1, .nan)

/-- A final list as it is written. -/
def Encoded.ofFinal (mode : Mode) (withProperties : Bool) (final : List (UInt64 × Binary64)) :
    Encoded :=
  let properties := if withProperties then some (final.map (·.2)) else none
  ⟨Adjacency.bytesOf mode (final.map (·.1)) (properties.getD []), final.map (·.1), properties⟩

theorem targets_finalList (aggregation : Aggregation) (records : List Recorded) (node : UInt64) :
    (finalList aggregation records node).map (·.1)
      = (aggregation.answer (recordedFrom node records)).map (·.1) := by
  rw [finalList]
  split
  · rfl
  · rw [List.map_map]
    rfl

theorem finalList_pairwise (aggregation : Aggregation) (records : List Recorded) (node : UInt64) :
    ((finalList aggregation records node).map (·.1)).Pairwise (· ≤ ·) := by
  rw [targets_finalList]
  exact aggregation.targets_answer_pairwise _

/-- What is written is what a cursor hands out. -/
theorem pair_ofFinal (mode : Mode) (aggregation : Aggregation) (records : List Recorded)
    (node : UInt64) :
    let final := finalList aggregation records node
    let e := Encoded.ofFinal mode (anyProperty records) final
    Cursor.pair (anyProperty records) ⟨e.targets, e.properties.getD []⟩ = final := by
  intro final e
  cases any : anyProperty records with
  | false =>
    have bare : final = (aggregation.answer (recordedFrom node records)).map
        fun p => (p.1, .nan) := by
      simp only [final, finalList, any, Bool.false_eq_true, if_false]
    have targets : e.targets = final.map (·.1) := rfl
    simp only [Cursor.pair, Bool.false_eq_true, if_false, targets, bare, List.map_map]
    rfl
  | true =>
    have properties : e.properties = some (final.map (·.2)) := by
      simp only [e, Encoded.ofFinal, any, if_true]
    have targets : e.targets = final.map (·.1) := rfl
    simp only [Cursor.pair, if_true, properties, targets, Option.getD_some]
    exact (List.zip_of_prod rfl rfl).symm

theorem paired_ofFinal (mode : Mode) (withProperties : Bool) (final : List (UInt64 × Binary64)) :
    let e := Encoded.ofFinal mode withProperties final
    (e.properties.getD []).length = if withProperties then e.targets.length else 0 := by
  cases withProperties with
  | false => rfl
  | true =>
    show (final.map (·.2)).length = (final.map (·.1)).length
    rw [List.length_map, List.length_map]

namespace GraphDraft

/-- The list of a node is written in its final form. -/
theorem encodeList_eq {b : GraphDraft} {records : List Recorded}
    (properties : b.withProperties = anyProperty records) (node : UInt64) :
    b.encodeList (recordedFrom node records).toArray
      = .ok (Encoded.ofFinal b.mode (anyProperty records)
          (finalList b.aggregation records node)) := by
  have targets := targets_finalList b.aggregation records node
  rw [encodeList, properties]
  cases any : anyProperty records with
  | false =>
    have encoded := Adjacency.encode_none b.mode b.aggregation (recordedFrom node records)
    simp only [Bool.false_eq_true, if_false, encoded, Encoded.ofFinal, targets,
      Option.getD_none]
  | true =>
    have same : ((recordedFrom node records).map (·.2)).length
        = ((recordedFrom node records).map (·.1)).length := by
      rw [List.length_map, List.length_map]
    have entries : ((recordedFrom node records).map (·.1)).zip
        ((recordedFrom node records).map (·.2)) = recordedFrom node records :=
      (List.zip_of_prod rfl rfl).symm
    have encoded := Adjacency.encode_some b.mode b.aggregation same
    rw [entries] at encoded
    simp only [if_true, encoded, Encoded.ofFinal, finalList, any,
      Option.getD_some]

/-- Lists that are all encoded are encoded in order. -/
theorem mapM_of_ok {α β : Type} {f : α → Checked β} {g : α → β} {items : List α}
    (each : ∀ item ∈ items, f item = .ok (g item)) : items.mapM f = .ok (items.map g) := by
  induction items with
  | nil => rfl
  | cons item items ih =>
    have others := ih fun other member => each other (List.mem_cons_of_mem _ member)
    rw [List.mapM_cons, each item List.mem_cons_self, others]
    rfl

/-- The final lists of all nodes as they are written. -/
def finalLists (b : GraphDraft) (nodeCount : UInt64) (records : List Recorded) : List Encoded :=
  (List.range nodeCount.toNat).map fun node =>
    Encoded.ofFinal b.mode (anyProperty records)
      (finalList b.aggregation records (UInt64.ofNat node))

theorem toNat_node {nodeCount : UInt64} {node : Nat} (inside : node < nodeCount.toNat) :
    (UInt64.ofNat node).toNat = node := by
  have word := nodeCount.toNat_lt
  rw [UInt64.toNat_ofNat']
  exact Nat.mod_eq_of_lt (Nat.lt_trans inside word)

theorem ofNat_node_lt {nodeCount : UInt64} {node : Nat} (inside : node < nodeCount.toNat) :
    UInt64.ofNat node < nodeCount := by
  show (UInt64.ofNat node).toNat < nodeCount.toNat
  rw [toNat_node inside]
  exact inside

/-- The lists of a draft, each as the record has it. -/
theorem lists_of_records {b : GraphDraft} {nodeCount : UInt64} {undirected : Bool}
    {records : List Recorded} (h : b.Records nodeCount undirected records) :
    b.lists.toList = (List.range nodeCount.toNat).map fun node =>
      (recordedFrom (UInt64.ofNat node) records).toArray := by
  apply toList_eq_map_range h.size
  intro node inside
  have own := h.lists _ (ofNat_node_lt inside)
  rw [toNat_node inside] at own
  exact own

theorem encodeLists_eq {b : GraphDraft} {nodeCount : UInt64} {undirected : Bool}
    {records : List Recorded} (h : b.Records nodeCount undirected records) :
    b.encodeLists = .ok (b.finalLists nodeCount records) := by
  rw [encodeLists, lists_of_records h, List.mapM_map]
  exact mapM_of_ok fun node _ => encodeList_eq h.properties _

end GraphDraft

/-! ### Queries -/

/-- The first member from `t` on of an ascending list is `t`, or `t` is no member. -/
theorem find?_le_eq {t : UInt64} {targets : List UInt64} (sorted : targets.Pairwise (· ≤ ·)) :
    ((targets.find? fun u => decide (t ≤ u)) == some t) = decide (t ∈ targets) := by
  induction targets with
  | nil => rfl
  | cons u targets ih =>
    obtain ⟨least, sorted⟩ := List.pairwise_cons.mp sorted
    rw [List.find?_cons]
    by_cases reached : t ≤ u
    · rw [decide_eq_true reached]
      by_cases same : u = t
      · subst same
        simp
      · have absent : t ∉ u :: targets := by
          intro member
          rcases List.mem_cons.mp member with rfl | behind
          · exact same rfl
          · exact same (UInt64.le_antisymm (least t behind) reached)
        rw [decide_eq_false absent]
        simpa using same
    · have other : t ≠ u := by
        rintro rfl
        exact reached (UInt64.le_refl t)
      rw [decide_eq_false reached]
      simp only [ih sorted, List.mem_cons, other, false_or]

namespace CompressedGraph

/-- Every query about a node answers for these relationships. -/
structure Answers (g : CompressedGraph) (node : UInt64) (entries : List (UInt64 × Binary64)) :
    Prop where
  degree : g.degree node = entries.length
  neighbors : g.neighbors node = .ok (entries.map (·.1))
  relationships : g.relationships node = .ok entries
  neighborAt : ∀ index, g.neighborAt node index = .ok (entries.map (·.1))[index]?
  contains : ∀ target, g.contains node target = .ok (decide (target ∈ entries.map (·.1)))

/-- Every query about a node reads this list, in the order in which it is. -/
structure Reads (g : CompressedGraph) (node : UInt64) (entries : List (UInt64 × Binary64)) :
    Prop where
  degree : g.degree node = entries.length
  neighbors : g.neighbors node = .ok (entries.map (·.1))
  relationships : g.relationships node = .ok entries
  neighborAt : ∀ index, g.neighborAt node index = .ok (entries.map (·.1))[index]?
  contains : ∀ target, g.contains node target
    = .ok ((entries.map (·.1)).find? (fun t => decide (target ≤ t)) == some target)

/-- Queries read what the cursor at the front of a list has ahead. -/
theorem reads_of_walk {ahead : Cursor → List (UInt64 × Binary64) → Prop}
    (walk : Cursor.Walk ahead) {g : CompressedGraph} {node : UInt64} {c : Cursor}
    {entries : List (UInt64 × Binary64)} (front : g.cursor node = .ok c) (h : ahead c entries)
    (degree : g.degree node = entries.length) : g.Reads node entries := by
  refine ⟨degree, ?_, ?_, ?_, ?_⟩
  · rw [neighbors, front]
    simp only [walk.drain h, decoded, Except.mapError]
  · rw [relationships, front]
    simp only [walk.drainPairs h, decoded, Except.mapError]
  · intro index
    rw [neighborAt, degree, front]
    by_cases beyond : entries.length ≤ index
    · rw [if_pos beyond, List.getElem?_eq_none]
      rw [List.length_map]
      exact beyond
    · obtain ⟨c', jumped, -⟩ := walk.jump h index
      simp only [if_neg beyond, jumped, decoded, Except.mapError]
  · intro target
    obtain ⟨c', sought, -⟩ := walk.seekTo h target
    rw [contains, front]
    simp only [sought, decoded, Except.mapError, Except.map]

/-- The test for a single relationship is right if the list is in ascending order. -/
theorem answers_of_reads {g : CompressedGraph} {node : UInt64}
    {entries : List (UInt64 × Binary64)} (h : g.Reads node entries)
    (sorted : (entries.map (·.1)).Pairwise (· ≤ ·)) : g.Answers node entries := by
  refine ⟨h.degree, h.neighbors, h.relationships, h.neighborAt, ?_⟩
  intro target
  rw [h.contains, find?_le_eq sorted]

end CompressedGraph

namespace GraphDraft

/-- The graph over some lists holds them. -/
theorem stores_graphOver {b : GraphDraft} {lists : List Encoded} {l : Layout} (h : l.Lays lists)
    (nodes : lists.length = b.nodeCount.toNat) (fits : totalBytes lists ≤ largestBuffer) :
    (b.graphOver l).Stores lists := by
  refine ⟨nodes, ?_, h.degrees, h.adjacency, fits, h.small⟩
  intro index inside
  show (l.offsets.push l.adjacency.size.toUInt64)[index]? = _
  rw [Array.getElem?_push, h.count]
  by_cases last : index = lists.length
  · rw [if_pos last, last, bytesBefore_all, totalBytes, ← List.length_flatMap, ← h.adjacency]
    rfl
  · rw [if_neg last]
    exact h.offsets index (by omega)

/-- The graph over the final lists of all nodes holds them. -/
theorem stores_finalLists {b : GraphDraft} {nodeCount : UInt64} {undirected : Bool}
    {records : List Recorded} (h : b.Records nodeCount undirected records) {l : Layout}
    (lays : l.Lays (b.finalLists nodeCount records))
    (fits : totalBytes (b.finalLists nodeCount records) ≤ largestBuffer) :
    (b.graphOver l).Stores (b.finalLists nodeCount records) := by
  refine stores_graphOver lays ?_ fits
  rw [finalLists, List.length_map, List.length_range, h.nodes]

theorem getElem?_finalLists (b : GraphDraft) {nodeCount node : UInt64} (records : List Recorded)
    (inside : node < nodeCount) :
    (b.finalLists nodeCount records)[node.toNat]?
      = some (Encoded.ofFinal b.mode (anyProperty records)
          (finalList b.aggregation records node)) := by
  have inside : node.toNat < nodeCount.toNat := inside
  rw [finalLists, List.getElem?_map, List.getElem?_range inside, Option.map_some,
    UInt64.ofNat_toNat]

/-- A cursor at the front of a node's list holds the final list of the node. -/
theorem cursor_graphOver {b : GraphDraft} {nodeCount : UInt64} {undirected : Bool}
    {records : List Recorded} (h : b.Records nodeCount undirected records) {l : Layout}
    (stores : (b.graphOver l).Stores (b.finalLists nodeCount records)) {node : UInt64}
    (inside : node < nodeCount) :
    ∃ c, (b.graphOver l).cursor node = .ok c
      ∧ c.Holds (finalList b.aggregation records node) := by
  have properties : (b.graphOver l).withProperties = anyProperty records := h.properties
  have front := CompressedGraph.cursor_of_stores stores (getElem?_finalLists b records inside) rfl
    (properties ▸ paired_ofFinal b.mode (anyProperty records) _)
  rw [properties, pair_ofFinal] at front
  exact front

/-- The graph over the final lists of all nodes answers for them. -/
theorem answers_graphOver {b : GraphDraft} {nodeCount : UInt64} {undirected : Bool}
    {records : List Recorded} (h : b.Records nodeCount undirected records) {l : Layout}
    (lays : l.Lays (b.finalLists nodeCount records))
    (fits : totalBytes (b.finalLists nodeCount records) ≤ largestBuffer) {node : UInt64}
    (inside : node < nodeCount) :
    (b.graphOver l).Answers node (finalList b.aggregation records node) := by
  have stores := stores_finalLists h lays fits
  obtain ⟨c, front, held⟩ := cursor_graphOver h stores inside
  refine CompressedGraph.answers_of_reads
    (CompressedGraph.reads_of_walk Cursor.walk_holds front held ?_) (finalList_pairwise _ _ _)
  rw [CompressedGraph.degree_of_stores stores (getElem?_finalLists b records inside)]
  exact List.length_map _

/-- A graph that was built lies over the final lists of all nodes. -/
theorem graphOver_of_build {b : GraphDraft} {nodeCount : UInt64} {undirected : Bool}
    {records : List Recorded} (h : b.Records nodeCount undirected records) {g : CompressedGraph}
    (built : b.build = .ok g) :
    ∃ l : Layout, g = b.graphOver l ∧ l.Lays (b.finalLists nodeCount records)
      ∧ totalBytes (b.finalLists nodeCount records) ≤ largestBuffer := by
  rw [build, encodeLists_eq h] at built
  rcases layOut_cases (b.finalLists nodeCount records) with
    ⟨-, refused⟩ | ⟨e, -, -, refused⟩ | ⟨l, done, lays, fits⟩
  · simp [refused] at built
  · simp [refused] at built
  · simp only [done, Except.ok.injEq] at built
    exact ⟨l, built.symm, lays, fits⟩

/-- A graph built by any sequence of steps answers, about every node, for the relationships the
accepted steps added; building fails only when a degree or the bytes outgrow their words.  A refused
step is as good as one not taken. -/
theorem build_answers (nodeCount : UInt64) (steps : List GraphStep) :
    let b := (ofNodeCount nodeCount).run steps
    let records := recorded nodeCount false steps
    let final := finalList b.aggregation records
    (match b.build with
      | .ok g =>
        (∀ node < nodeCount, g.Answers node (final node))
          ∧ g.relationshipCount = UInt64.ofNat
              ((List.range nodeCount.toNat).map fun node => (final (UInt64.ofNat node)).length).sum
      | .error fault =>
        (fault = .crash .capacityOverflow
            ∧ largestBuffer < totalBytes ((List.range nodeCount.toNat).map fun node =>
                Encoded.ofFinal b.mode (anyProperty records) (final (UInt64.ofNat node))))
          ∨ ∃ node < nodeCount, largestDegree < (final node).length
              ∧ fault = .invalidArgument (.degreeTooLarge (final node).length))
      ∧ ∀ front step back fault, steps = front ++ step :: back →
          ((ofNodeCount nodeCount).run front).apply step = .error fault →
          b = (ofNodeCount nodeCount).run (front ++ back) := by
  intro b records final
  refine ⟨?_, ?_⟩
  · obtain ⟨both, h⟩ := records_run (records_ofNodeCount nodeCount) steps
    rw [List.nil_append] at h
    have encoded : b.encodeLists = .ok (b.finalLists nodeCount records) := encodeLists_eq h
    have degrees : (b.finalLists nodeCount records).map Encoded.degree
        = (List.range nodeCount.toNat).map fun node => (final (UInt64.ofNat node)).length := by
      rw [finalLists, List.map_map]
      apply List.map_congr_left
      intro node _
      exact List.length_map _
    rw [build, encoded]
    rcases layOut_cases (b.finalLists nodeCount records) with
      ⟨large, refused⟩ | ⟨e, member, large, refused⟩ | ⟨l, done, lays, fits⟩
    · simp only [refused]
      exact .inl ⟨trivial, large⟩
    · obtain ⟨node, inside, rfl⟩ := List.mem_map.mp member
      have word := toNat_node (List.mem_range.mp inside)
      have length : (Encoded.ofFinal b.mode (anyProperty records)
          (finalList b.aggregation records (UInt64.ofNat node))).degree
            = (final (UInt64.ofNat node)).length := List.length_map _
      rw [length] at large refused
      simp only [refused]
      refine .inr ⟨UInt64.ofNat node, ?_, large, rfl⟩
      show (UInt64.ofNat node).toNat < nodeCount.toNat
      rw [word]
      exact List.mem_range.mp inside
    · simp only [done]
      refine ⟨fun node inside => answers_graphOver h lays fits inside, ?_⟩
      rw [graphOver, lays.relationships, degrees]
  · intro front step back fault split refused
    have steps_eq := run_refused (ofNodeCount nodeCount) front back refused
    rw [← split] at steps_eq
    exact steps_eq

/-! ### A graph of three nodes -/

/-- Steps between three nodes, both ways; the last is refused. -/
def triangle : List GraphStep :=
  [.orient true, .relateWith 0 2 .one, .relate 0 1, .relate 1 5]

/-- The graph of these steps. -/
def triangleGraph : CompressedGraph where
  mode := .varLong
  nodeCount := 3
  relationshipCount := 4
  withProperties := true
  offsets := #[0, 18, 27, 36]
  degrees := #[2, 1, 1]
  adjacency := #[130, 130, 0, 0, 0, 0, 0, 0, 248, 127, 0, 0, 0, 0, 0, 0, 240, 63,
    128, 0, 0, 0, 0, 0, 0, 248, 127, 128, 0, 0, 0, 0, 0, 0, 240, 63]
  mapped := false

theorem build_triangle : ((ofNodeCount 3).run triangle).build = .ok triangleGraph := by cbv

end GraphDraft

end NeighborGraph
