import NeighborGraph.Checksum
import NeighborGraph.Graph.Draft
import NeighborGraph.Graph.FileDescription

/-!
# Graph files

A graph file is a header of 48 bytes, the description of the graph and its adjacency bytes:

* bytes 0 to 3: the letters `KNNG`; bytes 4 to 7: version 1;
* byte 8: the tag of the mode; byte 9: whether relationships have properties; bytes 10, 11: unused;
* then six fields of which the first four take 8 bytes each: number of nodes, number of
  relationships, length of the description, length of the adjacency bytes, and in the last 4 bytes
  the checksum of description and adjacency bytes.

`GraphFile.write` writes a graph, `GraphFile.decode` reads one.  Writing is refused when the
description outgrows one buffer or the file the largest file there is.  Reading trusts nothing: the
file must have the length that the header declares and the checksum that it states, and the offsets
and degrees must fit the header, before a graph is made of them.
-/

namespace NeighborGraph.GraphFile

/-- The letters at the front of a graph file. -/
def magic : List UInt8 := [0x4b, 0x4e, 0x4e, 0x47]

/-- The version of the format. -/
def version : Nat := 1

/-- Length of the header. -/
def headerSize : Nat := 48

/-! ### Header -/

/-- What the header states. -/
structure Header where
  mode : Mode
  withProperties : Bool
  nodeCount : UInt64
  relationshipCount : UInt64
  descriptionSize : UInt64
  adjacencySize : UInt64
  checksum : UInt32
deriving DecidableEq, Repr

namespace Header

/-- Bytes of a header. -/
def encode (h : Header) : List UInt8 :=
  magic ++ LittleEndian.encode 4 version
    ++ [UInt8.ofNat h.mode.tag, if h.withProperties then 1 else 0, 0, 0]
    ++ LittleEndian.word h.nodeCount ++ LittleEndian.word h.relationshipCount
    ++ LittleEndian.word h.descriptionSize ++ LittleEndian.word h.adjacencySize
    ++ LittleEndian.encode 4 h.checksum.toNat

/-- The number in `size` bytes from `offset` on. -/
def field (bytes : List UInt8) (offset size : Nat) : Nat :=
  LittleEndian.decode ((bytes.drop offset).take size)

/-- Reads the header at the front of a file. -/
def decode (bytes : List UInt8) : Except CorruptionFault Header :=
  let size := bytes.length
  if size < headerSize then .error (.shortHeader size)
  else if bytes.take 4 ≠ magic then .error .badMagic
  else if field bytes 4 4 ≠ version then .error (.unsupportedVersion (field bytes 4 4))
  else
    match Mode.ofTag? (field bytes 8 1) with
    | none => .error (.unknownModeInHeader (field bytes 8 1))
    | some mode =>
      .ok {
        mode
        withProperties := field bytes 9 1 != 0
        nodeCount := (field bytes 12 8).toUInt64
        relationshipCount := (field bytes 20 8).toUInt64
        descriptionSize := (field bytes 28 8).toUInt64
        adjacencySize := (field bytes 36 8).toUInt64
        checksum := (field bytes 44 4).toUInt32 }

/-- Largest number that fits a 64-bit word. -/
def largestSize : Nat := 0xffffffffffffffff

/-- Length of the file that the header declares; it must fit a 64-bit word. -/
def fileSize (h : Header) : Except CorruptionFault Nat :=
  let size := headerSize + h.descriptionSize.toNat + h.adjacencySize.toNat
  if size ≤ largestSize then .ok size
  else .error (.sectionOverflow h.descriptionSize.toNat h.adjacencySize.toNat)

end Header

/-! ### Writing -/

/-- The description of a graph. -/
def describe (g : CompressedGraph) : FileDescription where
  offsets := g.offsets.toList
  degrees := g.degrees.toList
  columns := g.properties.columns

/-- Bytes of a graph. -/
def encode (g : CompressedGraph) : List UInt8 :=
  let description := (describe g).encode
  let adjacency := g.adjacency.toList
  let header : Header := {
    mode := g.mode
    withProperties := g.withProperties
    nodeCount := g.nodeCount
    relationshipCount := g.relationshipCount
    descriptionSize := description.length.toUInt64
    adjacencySize := adjacency.length.toUInt64
    checksum := Checksum.ofBytes (description ++ adjacency) }
  header.encode ++ description ++ adjacency

/-- Largest length of a file; it fits a signed 64-bit word. -/
def largestFile : Nat := 0x7fffffffffffffff

/-- Writes a graph. -/
def write (g : CompressedGraph) : Checked (List UInt8) :=
  let file := encode g
  if GraphDraft.largestBuffer < (describe g).encode.length then .error (.crash .capacityOverflow)
  else if largestFile < file.length then .error .io
  else .ok file

/-! ### Reading -/

/-- Whether no word exceeds the one after it. -/
def ascending : List UInt64 → Bool
  | a :: b :: rest => a ≤ b && ascending (b :: rest)
  | _ => true

/-- Whether offsets and degrees fit the header.  Degrees are added up in one word, without a look at the
carry. -/
def checkLayout (h : Header) (d : FileDescription) : Except CorruptionFault Unit :=
  if d.offsets.length ≠ h.nodeCount.toNat + 1 ∨ d.degrees.length ≠ h.nodeCount.toNat then
    .error (.layoutCounts d.offsets.length d.degrees.length h.nodeCount.toNat)
  else if ¬ ascending d.offsets ∨ d.offsets.getLast? ≠ some h.adjacencySize then
    .error .offsetsNotMonotonic
  else
    let sum := d.degrees.foldl (fun sum degree => sum + degree.toUInt64) (0 : UInt64)
    if sum ≠ h.relationshipCount then .error (.degreeSum sum.toNat h.relationshipCount.toNat)
    else .ok ()

/-- The checked header and description of a file, and its adjacency bytes. -/
def decodeSections (bytes : List UInt8) :
    Except CorruptionFault (Header × FileDescription × List UInt8) := do
  let header ← Header.decode bytes
  let size ← header.fileSize
  let actual := bytes.length
  if size ≠ actual then .error (.sizeMismatch size actual)
  let sections := bytes.drop headerSize
  let checksum := Checksum.ofBytes sections
  if checksum ≠ header.checksum then .error (.checksumMismatch header.checksum checksum)
  match FileDescription.decode? (sections.take header.descriptionSize.toNat) with
  | none => .error .description
  | some description =>
    checkLayout header description
    return (header, description, sections.drop header.descriptionSize.toNat)

/-- Inserts the columns of a file, in order. -/
def insertColumns (nodeCount : Nat) (columns : List (String × Column)) : Checked PropertyStore :=
  columns.foldlM (fun store (name, column) => store.insert name column nodeCount) {}

/-- Reads a graph. -/
def decode (bytes : List UInt8) : Checked CompressedGraph :=
  match decodeSections bytes with
  | .error fault => .error (.corruption fault)
  | .ok (header, description, adjacency) =>
    (insertColumns header.nodeCount.toNat description.columns).map fun properties => {
      mode := header.mode
      nodeCount := header.nodeCount
      relationshipCount := header.relationshipCount
      withProperties := header.withProperties
      offsets := description.offsets.toArray
      degrees := description.degrees.toArray
      adjacency := adjacency.toArray
      mapped := true
      properties }

end NeighborGraph.GraphFile
