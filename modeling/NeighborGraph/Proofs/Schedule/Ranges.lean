import Mathlib.Algebra.GroupWithZero.Nat
import NeighborGraph.Schedule.Ranges

/-!
# Every node lies in a range

Whatever the number of workers, the ranges that `NodeRange.tiles` cuts leave no node out.  Each starts
where the one before it stops (`Tiling`), as the loop that cuts them does (`tiling_layFrom`), so they
hold every node once, in order (`nodes_tiles`), and nothing else (`lt_of_mem_tiles`).

The loop has a closed form (`tiles_eq`): the range `i` starts at the node `i * batch`.  There are no more
ranges than workers, and all but the last are of one size (`tiles_tiling`).
-/

namespace NeighborGraph.NodeRange

theorem mem_nodes {p : NodeRange} {node : Nat} : node ∈ p.nodes ↔ p.start ≤ node ∧ node < p.stop := by
  rw [nodes, List.mem_range'_1, stop]

/-! ### One range after the other -/

/-- Ranges that follow one another from `first` to `last`, none of them empty. -/
inductive Tiling : (first last : Nat) → List NodeRange → Prop
  | done (first : Nat) : Tiling first first []
  | next {last : Nat} {p : NodeRange} {rest : List NodeRange} (some : 0 < p.size)
      (behind : Tiling p.stop last rest) : Tiling p.start last (p :: rest)

namespace Tiling

variable {first last : Nat} {ps : List NodeRange}

theorem first_le (h : Tiling first last ps) : first ≤ last := by
  induction h with
  | done => exact Nat.le_refl _
  | next some behind ih =>
    rw [stop] at ih
    omega

theorem eq_nil_iff (h : Tiling first last ps) : ps = [] ↔ first = last := by
  cases h with
  | done => exact ⟨fun _ => rfl, fun _ => rfl⟩
  | @next last p rest some behind =>
    have after := behind.first_le
    rw [stop] at after
    exact ⟨fun none => (List.cons_ne_nil p rest none).elim, fun same => by omega⟩

/-- A node between the ends lies in one range, any other one in none. -/
theorem countP_contains (h : Tiling first last ps) (node : Nat) :
    ps.countP (·.contains node) = if first ≤ node ∧ node < last then 1 else 0 := by
  induction h with
  | done first =>
    rw [List.countP_nil, if_neg (by omega)]
  | @next last p rest some behind ih =>
    have after := behind.first_le
    have inside : p.contains node = true ↔ p.start ≤ node ∧ node < p.stop := by
      rw [contains, Bool.and_eq_true, decide_eq_true_iff, decide_eq_true_iff]
    rw [List.countP_cons, ih]
    simp only [inside]
    rw [stop] at after ⊢
    split <;> split <;> split <;> omega

/-- The ranges hold all nodes between the ends in order, each of them once. -/
theorem nodes_eq (h : Tiling first last ps) :
    ps.flatMap nodes = List.range' first (last - first) := by
  induction h with
  | done first => rw [Nat.sub_self, List.flatMap_nil, List.range'_zero]
  | @next last p rest some behind ih =>
    have after := behind.first_le
    have sizes : last - p.start = p.size + (last - p.stop) := by
      rw [stop] at after ⊢
      omega
    rw [List.flatMap_cons, ih, nodes, sizes, ← List.range'_append_1, stop]

end Tiling

/-! ### The loop -/

section Loop

variable {n batch start : Nat} (some : 0 < batch)
include some

/-- As long as there are nodes left, one more range is cut. -/
theorem layFrom_of_lt (left : start < n) :
    layFrom n batch some start = ⟨start, min batch (n - start)⟩
      :: layFrom n batch some (start + min batch (n - start)) := by
  rw [layFrom, if_pos left]

theorem layFrom_of_le (through : n ≤ start) : layFrom n batch some start = [] := by
  rw [layFrom, if_neg (Nat.not_lt.mpr through)]

/-- Each range starts where the one before it stops. -/
theorem tiling_layFrom (front : start ≤ n) : Tiling start n (layFrom n batch some start) := by
  fun_induction layFrom n batch some start with
  | case1 start left size ih =>
    have stops : start + size ≤ n := by omega
    exact .next (p := ⟨start, size⟩) (by show 0 < size; omega) (ih stops)
  | case2 start through =>
    obtain rfl : start = n := by omega
    exact .done start

theorem ceilDiv_zero : ceilDiv 0 batch = 0 := by
  rw [ceilDiv, Nat.div_eq_of_lt (by omega)]

theorem ceilDiv_of_pos (left : 0 < n) : ceilDiv n batch = ceilDiv (n - batch) batch + 1 := by
  rw [ceilDiv, ceilDiv]
  rcases Nat.le_total batch n with enough | few
  · have more : n + batch - 1 = n - batch + batch - 1 + batch := by omega
    rw [more, Nat.add_div_right _ some]
  · have last : n + batch - 1 = n - 1 + batch := by omega
    rw [Nat.sub_eq_zero_of_le few, last, Nat.add_div_right _ some,
      Nat.div_eq_of_lt (by omega : n - 1 < batch), Nat.div_eq_of_lt (by omega : 0 + batch - 1 < batch)]

/-- The ranges from the first node of the batch `k` on: one for each batch there still is, cut off at the
number of nodes. -/
theorem layFrom_mul {count : Nat} (k : Nat) (batches : ceilDiv (n - k * batch) batch = count) :
    layFrom n batch some (k * batch)
      = (List.range' k count).map fun i => ⟨i * batch, min batch (n - i * batch)⟩ := by
  induction count generalizing k with
  | zero =>
    have through : n ≤ k * batch := by
      refine Nat.not_lt.mp fun left => ?_
      rw [ceilDiv_of_pos some (by omega)] at batches
      exact absurd batches (Nat.succ_ne_zero _)
    rw [layFrom_of_le some through, List.range'_zero, List.map_nil]
  | succ count ih =>
    have left : k * batch < n := by
      refine Nat.not_le.mp fun through => ?_
      rw [Nat.sub_eq_zero_of_le through, ceilDiv_zero some] at batches
      exact absurd batches.symm (Nat.succ_ne_zero _)
    have fewer : ceilDiv (n - (k + 1) * batch) batch = count := by
      rw [ceilDiv_of_pos some (by omega), Nat.sub_sub, ← Nat.add_one_mul] at batches
      exact Nat.succ.inj batches
    rw [layFrom_of_lt some left, List.range'_succ, List.map_cons]
    refine congrArg (List.cons _) ?_
    rcases Nat.le_total ((k + 1) * batch) n with whole | last
    · have stops : k * batch + min batch (n - k * batch) = (k + 1) * batch := by
        rw [Nat.add_one_mul] at whole ⊢
        omega
      rw [stops]
      exact ih (k + 1) fewer
    · have stops : k * batch + min batch (n - k * batch) = n := by
        rw [Nat.add_one_mul] at last
        omega
      rw [Nat.sub_eq_zero_of_le last, ceilDiv_zero some] at fewer
      subst fewer
      rw [stops, layFrom_of_le some (Nat.le_refl n), List.range'_zero, List.map_nil]

end Loop

/-- The loop in closed form: a range for every batch, cut off at the number of nodes. -/
theorem tiles_eq (concurrency nodeCount minBatch : Nat) :
    tiles concurrency nodeCount minBatch
      = (List.range (ceilDiv nodeCount (batchSize nodeCount concurrency minBatch))).map fun i =>
          let batch := batchSize nodeCount concurrency minBatch
          ⟨i * batch, min batch (nodeCount - i * batch)⟩ := by
  have closed := layFrom_mul (n := nodeCount) (batchSize_pos nodeCount concurrency minBatch) 0 rfl
  rw [Nat.zero_mul, Nat.sub_zero, ← List.range_eq_range'] at closed
  exact closed

/-! ### The ranges of a number of workers -/

theorem tiling_tiles (concurrency nodeCount minBatch : Nat) :
    Tiling 0 nodeCount (tiles concurrency nodeCount minBatch) :=
  tiling_layFrom _ (Nat.zero_le nodeCount)

/-- The ranges hold all nodes in order, each of them once. -/
theorem nodes_tiles (concurrency nodeCount minBatch : Nat) :
    (tiles concurrency nodeCount minBatch).flatMap nodes = List.range nodeCount := by
  rw [(tiling_tiles concurrency nodeCount minBatch).nodes_eq, Nat.sub_zero, List.range_eq_range']

theorem exists_mem_tiles {nodeCount node : Nat} (concurrency minBatch : Nat)
    (h : node < nodeCount) : ∃ p ∈ tiles concurrency nodeCount minBatch, node ∈ p.nodes := by
  have all := nodes_tiles concurrency nodeCount minBatch
  exact List.mem_flatMap.mp (all ▸ List.mem_range.mpr h)

theorem lt_of_mem_tiles {concurrency nodeCount minBatch node : Nat} {p : NodeRange}
    (tile : p ∈ tiles concurrency nodeCount minBatch) (member : node ∈ p.nodes) :
    node < nodeCount := by
  have all := nodes_tiles concurrency nodeCount minBatch
  exact List.mem_range.mp (all ▸ List.mem_flatMap.mpr ⟨p, tile, member⟩)

/-- The ranges have as many nodes as there are. -/
theorem sum_size_tiles (concurrency nodeCount minBatch : Nat) :
    ((tiles concurrency nodeCount minBatch).map size).sum = nodeCount := by
  have all := congrArg List.length (nodes_tiles concurrency nodeCount minBatch)
  rw [List.length_flatMap, List.length_range] at all
  have lengths : (fun p : NodeRange => p.nodes.length) = size := by
    funext p
    exact List.length_range'
  rw [← lengths]
  exact all

theorem lt_ceilDiv {n d i : Nat} (some : 0 < d) (h : i * d < n) : i < ceilDiv n d := by
  rw [ceilDiv, Nat.lt_iff_add_one_le, Nat.le_div_iff_mul_le some, Nat.add_one_mul]
  omega

theorem mul_lt_of_lt_ceilDiv {n d i : Nat} (some : 0 < d) (h : i < ceilDiv n d) : i * d < n := by
  rw [ceilDiv, Nat.lt_iff_add_one_le, Nat.le_div_iff_mul_le some, Nat.add_one_mul] at h
  omega

theorem le_mul_ceilDiv {d : Nat} (n : Nat) (some : 0 < d) : n ≤ ceilDiv n d * d :=
  Nat.not_lt.mp fun short => absurd (lt_ceilDiv some short) (Nat.lt_irrefl _)

theorem ceilDiv_le {n d k : Nat} (some : 0 < d) (h : n ≤ k * d) : ceilDiv n d ≤ k :=
  Nat.not_lt.mp fun more => absurd (mul_lt_of_lt_ceilDiv some more) (Nat.not_lt.mpr h)

section Sizes

variable {concurrency nodeCount minBatch : Nat} {p : NodeRange}

theorem size_le_of_mem_tiles (member : p ∈ tiles concurrency nodeCount minBatch) :
    p.size ≤ batchSize nodeCount concurrency minBatch := by
  rw [tiles_eq] at member
  obtain ⟨i, -, rfl⟩ := List.mem_map.mp member
  exact Nat.min_le_left _ _

/-- Only the last range may be short. -/
theorem size_of_mem_dropLast (member : p ∈ (tiles concurrency nodeCount minBatch).dropLast) :
    p.size = batchSize nodeCount concurrency minBatch := by
  have some := batchSize_pos nodeCount concurrency minBatch
  rw [tiles_eq] at member
  cases count : ceilDiv nodeCount (batchSize nodeCount concurrency minBatch) with
  | zero =>
    rw [count] at member
    exact absurd member List.not_mem_nil
  | succ before =>
    rw [count, List.range_succ, List.map_append, List.map_singleton,
      List.dropLast_concat] at member
    obtain ⟨i, small, rfl⟩ := List.mem_map.mp member
    have before_last : i + 1 < ceilDiv nodeCount (batchSize nodeCount concurrency minBatch) := by
      rw [count]
      exact Nat.succ_lt_succ (List.mem_range.mp small)
    have following := mul_lt_of_lt_ceilDiv some before_last
    rw [Nat.add_one_mul] at following
    show min _ _ = _
    omega

end Sizes

/-- As many nodes as each worker would have to take make few enough batches, larger batches fewer. -/
theorem length_tiles_le (concurrency nodeCount minBatch : Nat) :
    (tiles concurrency nodeCount minBatch).length ≤ max concurrency 1 := by
  have workers : 0 < max concurrency 1 := Nat.le_max_right _ _
  have share : ceilDiv nodeCount (max concurrency 1) ≤ batchSize nodeCount concurrency minBatch :=
    Nat.le_trans (Nat.le_max_left _ _) (Nat.le_max_left _ _)
  rw [tiles_eq, List.length_map, List.length_range]
  refine ceilDiv_le (batchSize_pos nodeCount concurrency minBatch) ?_
  calc nodeCount ≤ ceilDiv nodeCount (max concurrency 1) * max concurrency 1 :=
        le_mul_ceilDiv nodeCount workers
    _ = max concurrency 1 * ceilDiv nodeCount (max concurrency 1) := Nat.mul_comm _ _
    _ ≤ max concurrency 1 * batchSize nodeCount concurrency minBatch := Nat.mul_le_mul_left _ share

/-- The ranges of any number of workers, with or without a least batch: none of them is empty, the first
starts at node 0, each of the others where the one before it stops, and the last stops at the number of
nodes.  There are at most as many as workers, of whom there is at least one.  All but the last have the
size of a batch, which is not below the least batch, and the last is not larger.  So each node lies in
one range, and nothing else does in any. -/
theorem tiles_tiling (concurrency nodeCount : Nat) (minBatch : Option Nat) :
    let least := minBatch.getD 1
    let batch := batchSize nodeCount concurrency least
    let ranges := tiles concurrency nodeCount least
    Tiling 0 nodeCount ranges
      ∧ (ranges = [] ↔ nodeCount = 0)
      ∧ ranges.length ≤ max concurrency 1
      ∧ max least 1 ≤ batch
      ∧ (∀ p ∈ ranges.dropLast, p.size = batch)
      ∧ (∀ p ∈ ranges.getLast?, p.size ≤ batch)
      ∧ ∀ node, ranges.countP (·.contains node) = if node < nodeCount then 1 else 0 := by
  intro least batch ranges
  have some : 0 < batch := batchSize_pos nodeCount concurrency least
  have tiling : Tiling 0 nodeCount ranges := tiling_tiles concurrency nodeCount least
  refine ⟨tiling, tiling.eq_nil_iff.trans eq_comm, length_tiles_le concurrency nodeCount least, ?_,
    fun p member => size_of_mem_dropLast member,
    fun p last => size_le_of_mem_tiles (List.mem_of_getLast? last), fun node => ?_⟩
  · exact Nat.max_le.mpr ⟨Nat.le_trans (Nat.le_max_right _ _) (Nat.le_max_left _ _), some⟩
  · rw [tiling.countP_contains node]
    simp only [Nat.zero_le, true_and]

example : tiles 4 10 1 = [⟨0, 3⟩, ⟨3, 3⟩, ⟨6, 3⟩, ⟨9, 1⟩] := by cbv

end NeighborGraph.NodeRange
