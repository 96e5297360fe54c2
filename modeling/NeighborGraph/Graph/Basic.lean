import NeighborGraph.Graph.Column
import NeighborGraph.Graph.Cursor

/-!
# Compressed graphs

The relationships of all nodes are kept as one run of bytes: the encoded list of node `n` lies
between the offsets `n` and `n + 1`.  Offsets, degrees and bytes never change; only node property
columns may be added.

All queries decode on the fly.  A query about a node outside the graph is refused, a list that does
not decode is reported, and everything else is answered.
-/

namespace NeighborGraph

/-- A graph whose adjacency lists stay encoded. -/
structure CompressedGraph where
  mode : Mode
  nodeCount : UInt64
  relationshipCount : UInt64
  withProperties : Bool
  /-- Start of every list, and the end of the last one. -/
  offsets : Array UInt64
  degrees : Array UInt32
  adjacency : Array UInt8
  /-- Whether the bytes are served from a graph file. -/
  mapped : Bool
  properties : PropertyStore := {}
deriving DecidableEq, Repr

namespace CompressedGraph

/-- A graph without relationships. -/
def empty (nodeCount : UInt64) : CompressedGraph where
  mode := Mode.standard
  nodeCount := nodeCount
  relationshipCount := 0
  withProperties := false
  offsets := Array.replicate (nodeCount.toNat + 1) 0
  degrees := Array.replicate nodeCount.toNat 0
  adjacency := #[]
  mapped := false

/-- Number of nodes. -/
def size (g : CompressedGraph) : Nat := g.nodeCount.toNat

/-- Number of relationships of a node; none for a node outside the graph. -/
def degree (g : CompressedGraph) (node : UInt64) : Nat :=
  (g.degrees[node.toNat]?.map UInt32.toNat).getD 0

/-- The encoded list of a node. -/
def listBytes (g : CompressedGraph) (node : UInt64) : Checked (List UInt8) :=
  if node < g.nodeCount then
    match g.offsets[node.toNat]?, g.offsets[node.toNat + 1]? with
    | some start, some stop =>
      if start ≤ stop ∧ stop.toNat ≤ g.adjacency.size then
        .ok (g.adjacency.extract start.toNat stop.toNat).toList
      else
        .error (.corruption (.listOutsideBuffer node.toNat start.toNat stop.toNat g.adjacency.size))
    | _, _ => .error (.crash (.indexOutOfRange (node.toNat + 1) g.offsets.size))
  else .error (.invalidArgument (.nodeOutOfRange node.toNat g.nodeCount.toNat))

/-- A cursor at the front of a node's list. -/
def cursor (g : CompressedGraph) (node : UInt64) : Checked Cursor :=
  (g.listBytes node).map fun bytes =>
    Cursor.start bytes (Decoder.start g.mode (g.degree node) bytes.length g.withProperties)
      g.withProperties

/-- Makes an encoding fault a fault of the graph. -/
def decoded {α : Type} (r : Except EncodingFault α) : Checked α := r.mapError Fault.corruptEncoding

/-- The targets of a node. -/
def neighbors (g : CompressedGraph) (node : UInt64) : Checked (List UInt64) :=
  match g.cursor node with
  | .error fault => .error fault
  | .ok cursor => decoded cursor.drain

/-- The targets of a node, each with its property. -/
def relationships (g : CompressedGraph) (node : UInt64) : Checked (List (UInt64 × Binary64)) :=
  match g.cursor node with
  | .error fault => .error fault
  | .ok cursor => decoded cursor.drainPairs

/-- The target at an index of a node's list; nothing beyond its degree. -/
def neighborAt (g : CompressedGraph) (node : UInt64) (index : Nat) : Checked (Option UInt64) :=
  if g.degree node ≤ index then .ok none
  else
    match g.cursor node with
    | .error fault => .error fault
    | .ok cursor => decoded (cursor.jump index).1

/-- Whether a relationship from `source` to `target` exists. -/
def contains (g : CompressedGraph) (source target : UInt64) : Checked Bool :=
  match g.cursor source with
  | .error fault => .error fault
  | .ok cursor => (decoded (cursor.seekTo target).1).map (· == some target)

/-- Decodes the list of one node and compares its length with the degree. -/
def checkList (g : CompressedGraph) (node : UInt64) : Checked Unit :=
  match g.neighbors node with
  | .error fault => .error fault
  | .ok targets =>
    if targets.length = g.degree node then .ok ()
    else .error (.corruption (.listLength node.toNat targets.length (g.degree node)))

/-- Decodes every list once; the first malformed one is reported. -/
def validate (g : CompressedGraph) : Checked Unit :=
  (List.range g.size).forM fun node => g.checkList node.toUInt64

/-- The column of a name. -/
def column (g : CompressedGraph) (name : String) : Checked Column := g.properties.get name

/-- The graph with a column added or replaced. -/
def withColumn (g : CompressedGraph) (name : String) (column : Column) : Checked CompressedGraph :=
  (g.properties.insert name column g.size).map fun properties => { g with properties }

/-- Bytes held by offsets, degrees and encoded lists. -/
def byteSize (g : CompressedGraph) : Nat :=
  g.adjacency.size + g.offsets.size * 8 + g.degrees.size * 4

/-- One line that describes the graph. -/
def description (g : CompressedGraph) : String :=
  "CompressedGraph \x7b node_count: " ++ toString g.nodeCount.toNat
    ++ ", relationship_count: " ++ toString g.relationshipCount.toNat
    ++ ", compression: " ++ g.mode.label
    ++ ", properties: " ++ toString g.properties.size ++ " \x7d"

end CompressedGraph

end NeighborGraph
