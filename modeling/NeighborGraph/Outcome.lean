import NeighborGraph.Graph.Draft
import NeighborGraph.NeighborList
import NeighborGraph.Rounding

/-!
# Outcomes — the neighbors that were found

An `Outcome` holds the final list of every node and what it took to find them.  Its pairs can be
listed row by row, summarized, or turned into a graph with the similarity as relationship property.
-/

namespace NeighborGraph

/-- A node, one of its neighbors and how similar they are. -/
structure Row where
  source : Nat
  target : Nat
  similarity : Float
deriving Repr

/-- The neighbors of all nodes, and how they were found. -/
structure Outcome where
  lists : Array NeighborList
  nodeCount : Nat
  iterations : Nat
  converged : Bool
  /-- Pairs of nodes that were compared. -/
  pairs : Nat
deriving Repr

namespace Outcome

/-- The outcome when there was nothing to compare. -/
def empty : Outcome where
  lists := #[]
  nodeCount := 0
  iterations := 0
  converged := false
  pairs := 0

/-- The neighbors of a node, best first; none for an unknown node. -/
def neighbors (o : Outcome) (node : Nat) : List Neighbor :=
  (o.lists[node]?.map (·.entries)).getD []

/-- Number of neighbors of all nodes together. -/
def size (o : Outcome) : Nat := o.lists.foldl (fun n l => n + l.entries.length) 0

/-- Number of nodes with a neighbor. -/
def comparedNodes (o : Outcome) : Nat := (o.lists.toList.filter fun l => !l.entries.isEmpty).length

/-- The rows of one node. -/
def rowsOf (list : NeighborList) (source : Nat) : List Row :=
  list.entries.map fun x => ⟨source, x.id, x.similarity⟩

/-- All pairs, in the order of the nodes and best first. -/
def rows (o : Outcome) : List Row :=
  o.lists.toList.zipIdx.flatMap fun (l, source) => rowsOf l source

/-! ### Summary -/

/-- How the similarities of an outcome are distributed. -/
structure Summary where
  min : Float
  max : Float
  mean : Float
  deviation : Float
  p50 : Float
  p75 : Float
  p90 : Float
  p95 : Float
  p99 : Float
  p100 : Float
deriving Repr

/-- A word that sorts as the number does, negative zero before zero. -/
def sortKey (x : Float) : UInt64 :=
  let bits := x.toBits
  if bits >>> 63 = 1 then ~~~bits else bits ||| 0x8000000000000000

/-- Numbers in ascending order. -/
def sorted (xs : List Float) : List Float :=
  xs.mergeSort fun x y => decide (sortKey x ≤ sortKey y)

/-- The sum of numbers; that of none is negative zero, which changes no other sum. -/
def sum (xs : List Float) : Float := xs.foldl (· + ·) (-0.0)

/-- The smallest of some ascending numbers that `percent` of them do not exceed. -/
def percentile (ascending : Array Float) (percent : Float) : Float :=
  let place := Rounding.count (Rounding.up (percent / 100.0 * Float.ofNat ascending.size))
  ascending.getD (Nat.max 1 (Nat.min place ascending.size) - 1) 0.0

/-- The distribution of ascending numbers. -/
def summarize (ascending : List Float) : Summary :=
  let count := Float.ofNat ascending.length
  let mean := sum ascending / count
  let variance := sum (ascending.map fun x => (x - mean) * (x - mean)) / count
  let values := ascending.toArray
  { min := values.getD 0 0.0
    max := values.getD (values.size - 1) 0.0
    mean
    deviation := variance.sqrt
    p50 := percentile values 50.0
    p75 := percentile values 75.0
    p90 := percentile values 90.0
    p95 := percentile values 95.0
    p99 := percentile values 99.0
    p100 := percentile values 100.0 }

/-- The distribution of all similarities, if there are any. -/
def summary (o : Outcome) : Option Summary :=
  let similarities := o.rows.map (·.similarity)
  if similarities.isEmpty then none else some (summarize (sorted similarities))

/-! ### Graphs -/

/-- Adds a row as a relationship. -/
def addRow (b : GraphDraft) (row : Row) : Checked GraphDraft :=
  b.relateWith row.source.toUInt64 row.target.toUInt64
    (Binary64.ofFloat row.similarity)

/-- The graph with a relationship from every node to each of its neighbors. -/
def toGraph (o : Outcome) (mode : Mode) : Checked CompressedGraph :=
  let b := { GraphDraft.ofNodeCount o.nodeCount.toUInt64 with mode, aggregation := .none }
  match o.rows.foldlM addRow b with
  | .error fault => .error fault
  | .ok b => b.build

end Outcome

end NeighborGraph
