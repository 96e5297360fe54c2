import NeighborGraph.Graph.Basic

/-!
# Building graphs

A `GraphDraft` gathers relationships per source node, in the order in which they are added, and
`GraphDraft.build` encodes the lists one after the other.  Relationships without a property carry
NaN; whether the graph has properties at all is settled by the first relationship that brings one,
also for those added before it.

A refused relationship or column leaves the draft as it was.
-/

namespace NeighborGraph

/-- Relationships and columns of a graph to be. -/
structure GraphDraft where
  nodeCount : UInt64
  mode : Mode := Mode.standard
  aggregation : Aggregation := .standard
  /-- Whether relationships are recorded in both directions. -/
  undirected : Bool := false
  /-- The relationships of every node in the order in which they were added. -/
  lists : Array (Array (UInt64 × Binary64))
  /-- Whether some relationship brought a property. -/
  withProperties : Bool := false
  properties : PropertyStore := {}
deriving DecidableEq, Repr

namespace GraphDraft

/-- A draft without relationships. -/
def ofNodeCount (nodeCount : UInt64) : GraphDraft :=
  { nodeCount, lists := Array.replicate nodeCount.toNat #[] }

/-- Records one direction of a relationship. -/
def push (b : GraphDraft) (source target : UInt64) (property : Binary64) : GraphDraft :=
  { b with lists := b.lists.modify source.toNat (·.push (target, property)) }

/-- Records a relationship in the directions asked for; a self-loop is recorded once. -/
def record (b : GraphDraft) (source target : UInt64) (property : Binary64) : GraphDraft :=
  let b := b.push source target property
  if b.undirected ∧ source ≠ target then b.push target source property else b

/-- Both ends must be nodes of the graph. -/
def check (b : GraphDraft) (source target : UInt64) : Checked Unit :=
  if source < b.nodeCount ∧ target < b.nodeCount then .ok ()
  else
    .error (.invalidArgument
      (.relationshipOutOfRange source.toNat target.toNat b.nodeCount.toNat))

/-- Adds a relationship without a property. -/
def relate (b : GraphDraft) (source target : UInt64) : Checked GraphDraft :=
  match b.check source target with
  | .error fault => .error fault
  | .ok _ => .ok (b.record source target Binary64.nan)

/-- Adds a relationship with a property. -/
def relateWith (b : GraphDraft) (source target : UInt64)
    (property : Binary64) : Checked GraphDraft :=
  match b.check source target with
  | .error fault => .error fault
  | .ok _ => .ok { b.record source target property with withProperties := true }

/-- Adds a column. -/
def addColumn (b : GraphDraft) (name : String) (column : Column) : Checked GraphDraft :=
  (b.properties.insert name column b.nodeCount.toNat).map fun properties => { b with properties }

/-! ### Laying out the lists -/

/-- Encoded lists laid out one after the other. -/
structure Layout where
  offsets : Array UInt64 := #[]
  degrees : Array UInt32 := #[]
  adjacency : Array UInt8 := #[]
  relationshipCount : UInt64 := 0

/-- Largest degree; it fits a 32-bit word. -/
def largestDegree : Nat := 0xffffffff

/-- Lays out one more list. -/
def Layout.push (l : Layout) (list : Encoded) : Checked Layout :=
  if largestDegree < list.degree then .error (.invalidArgument (.degreeTooLarge list.degree))
  else
    .ok {
      offsets := l.offsets.push l.adjacency.size.toUInt64
      degrees := l.degrees.push list.degree.toUInt32
      adjacency := l.adjacency ++ list.bytes
      relationshipCount := l.relationshipCount + list.degree.toUInt64 }

/-- Largest number of bytes in one buffer. -/
def largestBuffer : Nat := 0x7fffffffffffffff

/-- Lays out all lists.  Their bytes have to fit one buffer, so no offset outgrows its word. -/
def layOut (lists : List Encoded) : Checked Layout :=
  if largestBuffer < (lists.flatMap Encoded.bytes).length then .error (.crash .capacityOverflow)
  else lists.foldlM Layout.push {}

/-- Encodes the list of one node. -/
def encodeList (b : GraphDraft) (entries : Array (UInt64 × Binary64)) : Checked Encoded :=
  let entries := entries.toList
  let properties := if b.withProperties then some (entries.map (·.2)) else none
  Adjacency.encode b.mode b.aggregation (entries.map (·.1)) properties

/-- Encodes all lists, in node order. -/
def encodeLists (b : GraphDraft) : Checked (List Encoded) := b.lists.toList.mapM b.encodeList

/-- The graph over lists that are laid out. -/
def graphOver (b : GraphDraft) (layout : Layout) : CompressedGraph where
  mode := b.mode
  nodeCount := b.nodeCount
  relationshipCount := layout.relationshipCount
  withProperties := b.withProperties
  offsets := layout.offsets.push layout.adjacency.size.toUInt64
  degrees := layout.degrees
  adjacency := layout.adjacency
  mapped := false
  properties := b.properties

/-- The graph of everything recorded. -/
def build (b : GraphDraft) : Checked CompressedGraph :=
  match b.encodeLists with
  | .error fault => .error fault
  | .ok lists =>
    match layOut lists with
    | .error fault => .error fault
    | .ok layout => .ok (b.graphOver layout)

end GraphDraft

end NeighborGraph
