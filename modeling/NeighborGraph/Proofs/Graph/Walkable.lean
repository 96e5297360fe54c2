import NeighborGraph.Proofs.Graph.LaidOut

/-!
# Relationships lead to nodes

Only relationships between nodes are recorded, and encoding a list makes up no target.  So in a graph
that callers make, the target at any index of a node's list can be decoded and is a node again
(`CompressedGraph.walkable_of_made`): whoever starts at a node can walk on for ever, or ends where a
node has no relationships.
-/

namespace NeighborGraph

/-- The final list of some relationships leads nowhere else than they do. -/
theorem Aggregation.mem_targets_answer {a : Aggregation} {pairs : List (UInt64 × Binary64)}
    {t : UInt64} (member : t ∈ (a.answer pairs).map (·.1)) : t ∈ pairs.map (·.1) := by
  obtain ⟨entry, inside, rfl⟩ := List.mem_map.mp member
  obtain ⟨target, known, kept⟩ := List.mem_flatMap.mp inside
  obtain ⟨property, -, rfl⟩ := List.mem_map.mp kept
  exact mem_ascending.mp known

/-! ### Recorded targets -/

theorem target_lt_of_directions {nodeCount source target : UInt64} {undirected : Bool}
    {property : Option Binary64} {r : Recorded}
    (member : r ∈ directions nodeCount undirected source target property) :
    r.target < nodeCount := by
  rw [directions] at member
  split at member
  · next inside =>
    split at member
    · rcases List.mem_pair.mp member with rfl | rfl
      · exact inside.2
      · exact inside.1
    · rw [List.mem_singleton.mp member]
      exact inside.2
  · exact absurd member List.not_mem_nil

/-- Whatever the steps, targets are nodes. -/
theorem target_lt_of_recorded {nodeCount : UInt64} {undirected : Bool} {steps : List GraphStep}
    {r : Recorded} (member : r ∈ recorded nodeCount undirected steps) : r.target < nodeCount := by
  induction steps generalizing undirected with
  | nil => exact absurd member List.not_mem_nil
  | cons step rest ih =>
    rcases List.mem_append.mp member with now | later
    · cases step with
      | relate source target => exact target_lt_of_directions now
      | relateWith source target property => exact target_lt_of_directions now
      | _ => exact absurd now List.not_mem_nil
    · exact ih later

theorem mem_of_mem_finalList {aggregation : Aggregation} {records : List Recorded}
    {node t : UInt64} (member : t ∈ (finalList aggregation records node).map (·.1)) :
    ∃ r ∈ records, r.target = t := by
  rw [targets_finalList] at member
  obtain ⟨entry, inside, rfl⟩ := List.mem_map.mp (Aggregation.mem_targets_answer member)
  obtain ⟨r, own, rfl⟩ := List.mem_map.mp inside
  exact ⟨r, (List.mem_filter.mp own).1, rfl⟩

/-! ### Walks -/

namespace CompressedGraph

/-- What a node's list has at an index, if anything, can be decoded and is a node. -/
def Walkable (g : CompressedGraph) : Prop :=
  ∀ node < g.size, ∀ index, ∃ next, g.neighborAt node.toUInt64 index = .ok next
    ∧ ∀ t, next = some t → t.toNat < g.size

theorem walkable_empty (nodeCount : UInt64) : (empty nodeCount).Walkable := by
  intro node _ index
  have none : (empty nodeCount).degree node.toUInt64 = 0 := by
    show ((Array.replicate nodeCount.toNat (0 : UInt32))[_]?.map UInt32.toNat).getD 0 = 0
    rw [Array.getElem?_replicate]
    split <;> rfl
  refine ⟨.none, ?_, fun t some => by cases some⟩
  rw [neighborAt, none, if_pos (Nat.zero_le index)]

/-- A built graph leads to the nodes that were recorded as targets. -/
theorem walkable_of_build {nodeCount : UInt64} {steps : List GraphStep} {g : CompressedGraph}
    (built : ((GraphDraft.ofNodeCount nodeCount).run steps).build = .ok g) : g.Walkable := by
  obtain ⟨both, h⟩ := GraphDraft.records_run (GraphDraft.records_ofNodeCount nodeCount) steps
  rw [List.nil_append] at h
  obtain ⟨l, rfl, lays, fits⟩ := GraphDraft.graphOver_of_build h built
  have size : ∀ b : GraphDraft, (b.graphOver l).size = b.nodeCount.toNat := fun _ => rfl
  intro node inside index
  rw [size, h.nodes] at inside ⊢
  have answers := GraphDraft.answers_graphOver h lays fits (GraphDraft.ofNat_node_lt inside)
  refine ⟨_, answers.neighborAt index, fun t found => ?_⟩
  obtain ⟨r, recorded, rfl⟩ := mem_of_mem_finalList (List.mem_of_getElem? found)
  exact target_lt_of_recorded recorded

theorem walkable_of_made {g : CompressedGraph} (made : g.Made) : g.Walkable := by
  induction made with
  | empty nodeCount => exact walkable_empty nodeCount
  | built done => exact walkable_of_build done
  | described _ done ih =>
    obtain ⟨properties, -, rfl⟩ := withColumn_cases done
    exact ih

end CompressedGraph

end NeighborGraph
