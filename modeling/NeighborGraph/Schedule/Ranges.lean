/-!
# Node ranges

A `NodeRange` is a range of consecutive nodes.  `NodeRange.tiles` cuts the nodes below a count into
as many equal ranges as there are workers, or into fewer where a batch would become too small; only
the last range may be shorter than the others.

The list of the ranges is allocated before the first of them is cut.  That cannot fail for a list
that a program can hold, and here it has no counterpart: the list would need `2 ^ 59` ranges of two
64-bit words each to outgrow the largest allocation.
-/

namespace NeighborGraph

/-- The nodes from `start` on, `size` of them. -/
structure NodeRange where
  start : Nat
  size : Nat
deriving DecidableEq, Repr, Inhabited

namespace NodeRange

/-- The node after the last one. -/
def stop (p : NodeRange) : Nat := p.start + p.size

/-- Whether the range holds no node. -/
def isEmpty (p : NodeRange) : Bool := p.size == 0

/-- The nodes of the range, ascending. -/
def nodes (p : NodeRange) : List Nat := List.range' p.start p.size

/-- Whether a node lies in the range. -/
def contains (p : NodeRange) (node : Nat) : Bool := p.start ≤ node && node < p.stop

/-- Division that rounds up. -/
def ceilDiv (n d : Nat) : Nat := (n + d - 1) / d

/-- Nodes per range for a number of nodes and workers. -/
def batchSize (nodeCount concurrency minBatch : Nat) : Nat :=
  max (max (ceilDiv nodeCount (max concurrency 1)) minBatch) 1

theorem batchSize_pos (nodeCount concurrency minBatch : Nat) :
    0 < batchSize nodeCount concurrency minBatch := Nat.le_max_right _ 1

/-- Ranges of `batch` nodes, one after the other, for the nodes from `start` on; the last range takes
what is left. -/
def layFrom (nodeCount batch : Nat) (some : 0 < batch) (start : Nat) : List NodeRange :=
  if start < nodeCount then
    let size := min batch (nodeCount - start)
    ⟨start, size⟩ :: layFrom nodeCount batch some (start + size)
  else []
termination_by nodeCount - start

/-- The ranges that a number of workers takes the nodes below `nodeCount` in. -/
def tiles (concurrency nodeCount minBatch : Nat) : List NodeRange :=
  layFrom nodeCount (batchSize nodeCount concurrency minBatch) (batchSize_pos ..) 0

end NodeRange

end NeighborGraph
