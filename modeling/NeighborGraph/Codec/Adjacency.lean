import NeighborGraph.Codec.Aggregation
import NeighborGraph.Codec.DeltaStream
import NeighborGraph.Codec.Packed

/-!
# Adjacency lists — encoding and decoding in every mode

* `Adjacency.encode` — sorts and aggregates the targets of one node, with or without a property
  each, and writes them in a `Mode`;
* `Decoder` — reads an encoded list chunk by chunk, at most 64 targets at a time;
* `Adjacency.decode` — reads a whole list;
* `Adjacency.decompress` — the same for a caller that wants it in a list of its own, which is
  allocated first, from the degree alone.

A list with properties holds, for the plain mode and the delta stream, all targets and then all
properties; a packed list holds them block by block.
-/

namespace NeighborGraph

/-! ### Encoding -/

/-- One list as it was written: its bytes, and the targets and properties in their final order. -/
structure Encoded where
  bytes : List UInt8
  targets : List UInt64
  properties : Option (List Binary64)
deriving DecidableEq, Repr

namespace Encoded

/-- Number of targets. -/
def degree (e : Encoded) : Nat := e.targets.length

/-- A buffer after the list was written behind what it held. -/
def appendTo (e : Encoded) (buffer : List UInt8) : List UInt8 := buffer ++ e.bytes

end Encoded

namespace Adjacency

/-- Targets as 8-byte words. -/
def wordBytes (targets : List UInt64) : List UInt8 := targets.flatMap LittleEndian.word

/-- Bytes of a sorted list. -/
def bytesOf (mode : Mode) (targets : List UInt64) (properties : List Binary64) : List UInt8 :=
  match mode with
  | .plain => wordBytes targets ++ Packed.propertyBytes properties
  | .varLong => DeltaStream.encode targets ++ Packed.propertyBytes properties
  | .packed tail => Packed.encode tail targets properties

/-- Sorts, aggregates and writes one list.  Targets and properties are paired by position.  The packed
modes refuse different numbers of both; the others leave that to the aggregation, which crashes. -/
def encode (mode : Mode) (aggregation : Aggregation) (targets : List UInt64)
    (properties : Option (List Binary64)) : Checked Encoded :=
  match properties with
  | none =>
    let targets := aggregation.reduce targets
    .ok ⟨bytesOf mode targets [], targets, none⟩
  | some properties =>
    if (mode matches .packed _) ∧ targets.length ≠ properties.length then
      .error (.invalidArgument (.unpairedProperties targets.length properties.length))
    else
      (aggregation.reducePaired targets properties).map fun pairs =>
        let targets := pairs.map (·.1)
        let properties := pairs.map (·.2)
        ⟨bytesOf mode targets properties, targets, some properties⟩

end Adjacency

/-! ### Decoding -/

/-- A position in an encoded list. -/
inductive Decoder
  | plain (degree decoded : Nat) (withProperties : Bool)
  | varLong (degree decoded streamLength : Nat) (position : DeltaStream.Position)
      (withProperties : Bool)
  | packed (blocks : BlockDecoder)
deriving DecidableEq, Repr

namespace Decoder

/-- The decoder at the front of a list of `size` bytes, properties included. -/
def start (mode : Mode) (degree size : Nat) (withProperties : Bool) : Decoder :=
  match mode with
  | .plain => .plain degree 0 withProperties
  | .varLong =>
    .varLong degree 0 (if withProperties then size - degree * 8 else size) {} withProperties
  | .packed tail => .packed (BlockDecoder.start degree tail withProperties)

/-- Targets not yet decoded. -/
def remaining : Decoder → Nat
  | .plain degree decoded _ => degree - decoded
  | .varLong degree decoded _ _ _ => degree - decoded
  | .packed blocks => blocks.remaining

/-- The properties of `count` targets at `offset`, when the list has any and a buffer asks. -/
def propertiesAt (bytes : List UInt8) (withProperties buffered : Bool) (offset count : Nat) :
    Except EncodingFault (List Binary64) :=
  if withProperties && buffered then readProperties bytes offset count else .ok []

/-- A chunk of plain words. -/
def nextPlain (bytes : List UInt8) (buffered : Bool) (degree decoded : Nat)
    (withProperties : Bool) : Except EncodingFault Chunk × Decoder :=
  let count := min (degree - decoded) blockSize
  match readWords bytes (decoded * 8) count with
  | .error fault => (.error fault, .plain degree decoded withProperties)
  | .ok targets =>
    match propertiesAt bytes withProperties buffered (degree * 8 + decoded * 8) count with
    | .error fault => (.error fault, .plain degree decoded withProperties)
    | .ok properties =>
      (.ok { targets, properties }, .plain degree (decoded + count) withProperties)

/-- A chunk of a delta stream.  The position in the stream moves also when the chunk fails later. -/
def nextVarLong (bytes : List UInt8) (buffered : Bool) (degree decoded streamLength : Nat)
    (position : DeltaStream.Position) (withProperties : Bool) :
    Except EncodingFault Chunk × Decoder :=
  let count := min (degree - decoded) blockSize
  if count = 0 then (.ok {}, .varLong degree decoded streamLength position withProperties)
  else
    let r := DeltaStream.read id bytes streamLength position count
    let failed := Decoder.varLong degree decoded streamLength r.position withProperties
    match r.outcome with
    | .error fault => (.error fault, failed)
    | .ok found =>
      if found ≠ count then (.error (.streamEnded count found), failed)
      else
        match propertiesAt bytes withProperties buffered (streamLength + decoded * 8) count with
        | .error fault => (.error fault, failed)
        | .ok properties =>
          (.ok { targets := r.written, properties },
            .varLong degree (decoded + count) streamLength r.position withProperties)

/-- Decodes up to 64 targets; an empty chunk once nothing remains.  `buffered` says whether the
caller has room for properties. -/
def next (d : Decoder) (bytes : List UInt8) (buffered : Bool) :
    Except EncodingFault Chunk × Decoder :=
  match d with
  | .plain degree decoded withProperties => nextPlain bytes buffered degree decoded withProperties
  | .varLong degree decoded streamLength position withProperties =>
    nextVarLong bytes buffered degree decoded streamLength position withProperties
  | .packed blocks =>
    let (chunk, blocks) := blocks.next bytes buffered
    (chunk, .packed blocks)

/-- Decodes up to `calls` chunks, stopping at the first empty one or the first fault. -/
def collect (bytes : List UInt8) (buffered : Bool) : (calls : Nat) → Decoder →
    Except EncodingFault Chunk
  | 0, _ => .ok {}
  | calls + 1, d =>
    match d.next bytes buffered with
    | (.error fault, _) => .error fault
    | (.ok chunk, d) =>
      if chunk.targets.isEmpty then .ok {}
      else
        match collect bytes buffered calls d with
        | .error fault => .error fault
        | .ok rest =>
          .ok ⟨chunk.targets ++ rest.targets, chunk.properties ++ rest.properties⟩

/-- Decodes everything that remains.  Every chunk but the last brings a target, so one call more
than there are targets is enough. -/
def drain (d : Decoder) (bytes : List UInt8) (buffered : Bool) : Except EncodingFault Chunk :=
  d.collect bytes buffered (d.remaining + 1)

end Decoder

namespace Adjacency

/-- Reads a whole list: its targets, and its properties when it has any. -/
def decodePairs (mode : Mode) (bytes : List UInt8) (degree : Nat) (withProperties : Bool) :
    Except EncodingFault Chunk :=
  (Decoder.start mode degree bytes.length withProperties).drain bytes withProperties

/-- Reads the targets of a whole list; properties are skipped unread. -/
def decode (mode : Mode) (bytes : List UInt8) (degree : Nat) (withProperties : Bool) :
    Except EncodingFault (List UInt64) :=
  match (Decoder.start mode degree bytes.length withProperties).drain bytes false with
  | .ok chunk => .ok chunk.targets
  | .error fault => .error fault

/-! ### Reading into a list of the caller's -/

/-- Bytes of the largest allocation. -/
def largestAllocation : Nat := 0x7fffffffffffffff

/-- What is read once a list of `degree` words has been allocated for it. -/
def allocated {α : Type} (degree : Nat) (read : Except EncodingFault α) : Checked α :=
  if largestAllocation < degree * 8 then .error (.crash .capacityOverflow)
  else read.mapError .corruptEncoding

/-- Reads the targets of a whole list into a list of their own. -/
def decompress (mode : Mode) (bytes : List UInt8) (degree : Nat) (withProperties : Bool) :
    Checked (List UInt64) :=
  allocated degree (decode mode bytes degree withProperties)

/-- Reads a whole list, targets and properties, into lists of their own. -/
def decompressPairs (mode : Mode) (bytes : List UInt8) (degree : Nat) (withProperties : Bool) :
    Checked Chunk :=
  allocated degree (decodePairs mode bytes degree withProperties)

end Adjacency

end NeighborGraph
