import NeighborGraph.Proofs.Descent.Lists

/-!
# What a run finds

Two results about runs that succeed.  For any comparison, even one that answers differently every
time, the final lists are in order, within their bounds and free of strangers, and the iterations
ended for a reason.  For a comparison that is a symmetric function of the two nodes, no node that was
offered is lost, unless better ones leave no place for it or the settings cut it off.
-/

namespace NeighborGraph

/-! ### Cutting off -/

namespace NeighborList

theorem mem_filter {l : NeighborList} {cutoff : Float} {x : Neighbor} :
    x ∈ (l.filter cutoff).entries ↔ x ∈ l.entries ∧ cutoff ≤ x.similarity := by
  rw [filter, List.mem_filter, decide_eq_true_iff]

/-- What is cut off is what is less similar. -/
theorem scores_filter {l : NeighborList} {cutoff : Float} (number : cutoff.isNaN = false) {ranked : List Scored}
    (h : l.scores = ranked.map fun p => (p.node, p.similarity)) :
    (l.filter cutoff).scores
      = (ranked.filter fun p => !decide (p.similarity < cutoff)).map fun p =>
          (p.node, p.similarity) := by
  have kept : (l.filter cutoff).scores = l.scores.filter fun p => decide (cutoff ≤ p.2) := by
    rw [scores, scores, filter, List.filter_map]
    rfl
  rw [kept, h, List.filter_map]
  congr 1
  apply List.filter_congr
  intro p _
  show decide (cutoff ≤ p.similarity) = _
  rw [Bool.eq_iff_iff, Bool.not_eq_true', decide_eq_true_iff, decide_eq_false_iff_not]
  exact NumberLine.le_iff_not_lt number p.number

end NeighborList

namespace Search

variable {s : Search} {o : Outcome} {d : Descent}

/-- A list of the outcome is what is left of a list before the last phase. -/
theorem neighbors_of_ends {t : Standing} (ends : s.Ends t o d) {v : Nat} {l : NeighborList}
    (found : t.lists[v]? = some l) : o.neighbors v = (s.cut l).entries := by
  rw [Outcome.neighbors, ends.lists, Array.getElem?_map, found]
  rfl

theorem valid_cut {v : Nat} {l : NeighborList} (h : l.Valid v) : (s.cut l).Valid v := by
  rw [cut]
  split
  · exact NeighborList.valid_filter h _
  · exact h

theorem mem_cut {l : NeighborList} {x : Neighbor} :
    x ∈ (s.cut l).entries
      ↔ x ∈ l.entries
        ∧ (0.0 < s.config.similarityCutoff → s.config.similarityCutoff ≤ x.similarity) := by
  rw [cut]
  split
  · next some => rw [NeighborList.mem_filter, imp_iff_right some]
  · next none => exact ⟨fun inside => ⟨inside, fun some => absurd some none⟩, And.left⟩

theorem exists_list {t : Standing} (size : t.lists.size = s.nodeCount) {v : Nat}
    (inside : v < s.nodeCount) : ∃ l, t.lists[v]? = some l := exists_entry size inside

/-! ### Any comparison -/

/-- What the search finds for the node `v`. -/
structure Finds (s : Search) (v : Nat) (neighbors : List Neighbor) : Prop where
  bounded : neighbors.length ≤ min s.config.topK.toNat (s.nodeCount - 1)
  others : ∀ x ∈ neighbors, x.id < s.nodeCount ∧ x.id ≠ v
  distinct : (neighbors.map (·.id)).Nodup
  ordered : neighbors.Pairwise fun x y =>
    y.similarity < x.similarity ∨ ((x.similarity == y.similarity) = true ∧ x.id < y.id)
  scored : ∀ x ∈ neighbors,
    x.similarity.isNaN = false ∧ Scores s.comparison v x.id x.similarity
  similar : ∀ x ∈ neighbors,
    0.0 < s.config.similarityCutoff → s.config.similarityCutoff ≤ x.similarity

theorem finds_cut {v : Nat} {l : NeighborList}
    (h : SoundList s.comparison s.nodeCount (s.config.listCapacity s.nodeCount) v l) :
    s.Finds v (s.cut l).entries := by
  have valid : (s.cut l).Valid v := valid_cut h.valid
  have capacity : (s.cut l).capacity = s.config.listCapacity s.nodeCount := by
    rw [cut]
    split
    · exact h.capacity
    · exact h.capacity
  refine ⟨?_, ?_, valid.distinct, ?_, ?_, fun x member => (mem_cut.mp member).2⟩
  · have bounded := valid.bounded
    rw [capacity] at bounded
    exact bounded
  · intro x member
    refine ⟨(h.known x (mem_cut.mp member).1).1, ?_⟩
    rintro rfl
    exact valid.others (List.mem_map_of_mem member)
  · refine valid.ordered.imp_of_mem ?_
    intro x y memberX memberY before
    exact (Neighbor.precedes_iff_better (valid.numbers x memberX) (valid.numbers y memberY)).mp
      before
  · intro x member
    exact ⟨valid.numbers x member, (h.known x (mem_cut.mp member).1).2⟩

/-- A run that succeeds has found neighbors for every node, and it has come to an end because an
iteration was quiet or there were no more iterations. -/
theorem run_lists_sound {entropy : UInt64} {signals : Signals} {signal : Nat}
    (nodes : 2 ≤ s.nodeCount) (places : s.config.topK ≠ 0)
    (run : s.run entropy signals signal = (.ok o, d)) :
    o.lists.size = s.nodeCount
      ∧ (∀ v < s.nodeCount, s.Finds v (o.neighbors v))
      ∧ 1 ≤ o.iterations
      ∧ o.iterations ≤ s.config.maxIterations.toNat
      ∧ d.updateCounts.length = o.iterations
      ∧ (o.converged = false →
          o.iterations = s.config.maxIterations.toNat
            ∧ ∀ updates ∈ d.updateCounts, s.config.quietLimit s.nodeCount < updates) := by
  have lasting := lasting_sound s.comparison s.nodeCount (s.config.listCapacity s.nodeCount)
  have first := sound_start s.comparison signals s.nodeCount (s.config.listCapacity s.nodeCount)
  obtain ⟨valid, t, sound, ends⟩ := of_run lasting
    (fun t _ sound => ⟨sound.size, sound.recorded, sound.lists⟩) first nodes places run
  obtain ⟨r, iterations, converged, tally⟩ := ends.rounds
  have size : o.lists.size = s.nodeCount := by
    rw [ends.lists, Array.size_map, sound.size]
  refine ⟨size, ?_, ?_, ?_, ?_, ?_⟩
  · intro v inside
    obtain ⟨l, found⟩ := exists_list sound.size inside
    rw [neighbors_of_ends ends found]
    exact finds_cut (sound.lists v l found)
  · rw [← iterations]
    exact tally.iterations_pos (Config.maxIterations_pos valid)
  · rw [← iterations]
    exact tally.bounded
  · rw [← iterations]
    exact tally.iterations.symm
  · rw [← iterations, ← converged]
    exact tally.loud

/-- Three nodes with a place for one neighbor each. -/
def threeNodes (comparison : Comparison) : Search where
  graph := CompressedGraph.empty 3
  config := { topK := 1, maxIterations := 2, similarityCutoff := 0.5, randomJoins := 1 }
  comparison

theorem exists_of_isOk {r : Checked Outcome × Descent} (h : r.1.isOk = true) :
    ∃ o d, r = (.ok o, d) := by
  obtain ⟨outcome, d⟩ := r
  cases outcome with
  | ok o => exact ⟨o, d, rfl⟩
  | error fault => cases h

/-- A comparison whose answers depend on the order of the nodes and on the number of the call. -/
def fickle : Comparison := fun call a _ => { outcome := .ok (some (Float.ofNat (call + a))) }

theorem run_lists_sound_of_three :
    ∃ o d, (threeNodes fickle).run 7 {} 0 = (.ok o, d)
      ∧ o.lists.size = 3
      ∧ (∀ v < 3, (threeNodes fickle).Finds v (o.neighbors v))
      ∧ (o.converged = false → o.iterations = 2) := by
  have ok : ((threeNodes fickle).run 7 {} 0).1.isOk = true := by decide +kernel
  obtain ⟨o, d, run⟩ := exists_of_isOk ok
  obtain ⟨size, finds, -, -, -, loud⟩ := run_lists_sound (by decide) (by decide) run
  exact ⟨o, d, run, size, finds, fun on => (loud on).1⟩

/-! ### Comparisons that are symmetric functions -/

/-- Of all nodes that were ever offered to a node, a run that succeeds finds the best.  What was
offered is settled by the encounters, and there is one for every comparison. -/
theorem run_lists_complete {f : Nat → Nat → Option Float}
    (function : s.comparison = .ofFunction f) (symmetric : ∀ a b, f a b = f b a)
    {entropy : UInt64} {signals : Signals} {signal : Nat} (nodes : 2 ≤ s.nodeCount)
    (places : s.config.topK ≠ 0) (run : s.run entropy signals signal = (.ok o, d)) :
    d.encounters.length = d.calls
      ∧ ∀ v < s.nodeCount,
          let capacity := min s.config.topK.toNat (s.nodeCount - 1)
          let cutoff := s.config.similarityCutoff
          let best := (ranking (f v) (offered v d.encounters)).take capacity
          let left :=
            if 0.0 < cutoff then best.filter fun p => !decide (p.similarity < cutoff) else best
          (o.neighbors v).map (fun x => (x.id, x.similarity))
            = left.map fun p => (p.node, p.similarity) := by
  have lasting := lasting_complete symmetric s.nodeCount (s.config.listCapacity s.nodeCount)
  rw [← function] at lasting
  have first := complete_start f signals s.nodeCount (s.config.listCapacity s.nodeCount)
  obtain ⟨-, t, complete, ends⟩ := of_run lasting
    (fun t _ complete =>
      ⟨⟨complete.sound.size, complete.sound.recorded, complete.sound.lists⟩, complete.best⟩)
    first nodes places run
  refine ⟨?_, ?_⟩
  · rw [ends.calls, ends.encounters]
    exact complete.sound.recorded
  intro v inside capacity cutoff best left
  obtain ⟨l, found⟩ := exists_list complete.sound.size inside
  have sound := complete.sound.lists v l found
  have scores := NeighborList.scores_of_best sound.valid (complete.best v l found)
  rw [sound.capacity, ← ends.encounters] at scores
  rw [neighbors_of_ends ends found]
  show (s.cut l).scores = _
  rw [cut]
  by_cases some : 0.0 < cutoff
  · rw [if_pos some, show left = _ from if_pos some]
    exact NeighborList.scores_filter (NumberLine.isNaN_of_lt some) scores
  · rw [if_neg some, show left = _ from if_neg some]
    exact scores

/-- Two of three nodes are not close to each other. -/
def closeness (a b : Nat) : Option Float := if a + b = 1 then some 0.25 else some 0.75

theorem run_lists_complete_of_three :
    ∃ o d, (threeNodes (.ofFunction closeness)).run 7 {} 0 = (.ok o, d)
      ∧ (o.neighbors 0).map (fun x => (x.id, x.similarity))
        = (((ranking (closeness 0) (offered 0 d.encounters)).take 1).filter
            fun p => !decide (p.similarity < 0.5)).map fun p => (p.node, p.similarity) := by
  have ok : ((threeNodes (.ofFunction closeness)).run 7 {} 0).1.isOk = true := by decide +kernel
  obtain ⟨o, d, run⟩ := exists_of_isOk ok
  have symmetric (a b : Nat) : closeness a b = closeness b a := by
    rw [closeness, closeness, Nat.add_comm]
  have best := (run_lists_complete rfl symmetric (by decide) (by decide) run).2 0 (by decide)
  have some : (0.0 : Float) < 0.5 := by decide
  refine ⟨o, d, run, best.trans ?_⟩
  rw [show (threeNodes (.ofFunction closeness)).config.similarityCutoff = 0.5 from rfl,
    if_pos some]
  rfl

end Search

end NeighborGraph
