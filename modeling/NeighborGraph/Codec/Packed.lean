import NeighborGraph.Binary64
import NeighborGraph.Codec.Bits
import NeighborGraph.Codec.Mode

/-!
# Packed lists — gaps in bit-packed blocks

A packed list of sorted targets is written as

* one width byte per packed block,
* then per block its gaps at that width, followed by its properties when the list has any.

A *gap* is the step from the target before, the first one from zero.  Every 64 gaps make a full
block; the gaps left over make the tail, written as its `Tail` says.  A var-long tail has no width
byte.

`BlockDecoder` reads a packed list block by block.  It holds no bytes: the caller hands them to
every call of `next`.

## What a failed call leaves behind

A block that cannot be located or cut into gaps leaves the decoder as it was, save for a var-long
tail, whose offset stays behind the last word read.  When the properties of a block cannot be read
the decoder has already moved past the block's gaps, although the block does not count as decoded.
-/

namespace NeighborGraph

/-! ### Writing -/

namespace Packed

/-- Number of width bytes of a list of `degree` targets. -/
def headerLength (degree : Nat) (tail : Tail) : Nat :=
  degree / blockSize + (if degree % blockSize > 0 ∧ tail ≠ .varLong then 1 else 0)

/-- A length rounded up to whole blocks. -/
def align (length : Nat) : Nat := (length + 63) / blockSize * blockSize

/-- The steps from each target to the next, the first one from `previous`. -/
def gapsFrom : (previous : UInt64) → (targets : List UInt64) → List UInt64
  | _, [] => []
  | previous, t :: rest => (t - previous) :: gapsFrom t rest

/-- The gaps of a list. -/
def gaps (targets : List UInt64) : List UInt64 := gapsFrom 0 targets

/-- The totals after each gap, starting from `running`. -/
def totals : (running : UInt64) → (gaps : List UInt64) → List UInt64
  | _, [] => []
  | running, g :: rest => (running + g) :: totals (running + g) rest

/-- The first `count` full blocks of a list. -/
def cut {α : Type} : (count : Nat) → (items : List α) → List (List α)
  | 0, _ => []
  | count + 1, items => items.take blockSize :: cut count (items.drop blockSize)

/-- The width byte of a block. -/
def width (gaps : List UInt64) : UInt8 := UInt8.ofNat (Bits.widthOf gaps)

/-- A block of gaps with room for `slots` of them, at its own width. -/
def gapBytes (slots : Nat) (gaps : List UInt64) : List UInt8 :=
  Bits.block (Bits.widthOf gaps) slots gaps

/-- Properties as 8-byte words. -/
def propertyBytes (properties : List Binary64) : List UInt8 :=
  properties.flatMap fun p => LittleEndian.word p.bits

/-- The width bytes of the tail. -/
def tailWidth (tail : Tail) (gaps : List UInt64) : List UInt8 :=
  if gaps.isEmpty || tail == .varLong then [] else [width gaps]

/-- The gaps of the tail. -/
def tailBytes (tail : Tail) (gaps : List UInt64) : List UInt8 :=
  if gaps.isEmpty then []
  else match tail with
    | .aligned => gapBytes blockSize gaps
    | .packed => gapBytes gaps.length gaps
    | .varLong => VarLong.encodeAll gaps

/-- The full blocks of a list, each followed by its properties. -/
def blockBytes : List (List UInt64) → List (List Binary64) → List UInt8
  | g :: gs, p :: ps => gapBytes blockSize g ++ propertyBytes p ++ blockBytes gs ps
  | _, _ => []

/-- Bytes of a sorted list; `properties` is empty for a list without any. -/
def encode (tail : Tail) (targets : List UInt64) (properties : List Binary64) : List UInt8 :=
  let all := gaps targets
  let full := targets.length / blockSize
  let blocks := cut full all
  let last := all.drop (full * blockSize)
  blocks.map width ++ tailWidth tail last
    ++ blockBytes blocks (cut full properties)
    ++ tailBytes tail last
    ++ propertyBytes (properties.drop (full * blockSize))

end Packed

/-! ### Reading -/

/-- What one call of a decoder yields: some targets, and their properties when asked for. -/
structure Chunk where
  targets : List UInt64 := []
  properties : List Binary64 := []
deriving DecidableEq, Repr, Inhabited

/-- Reads `count` words from `rest`, the bytes from `offset` on of a list of `size` bytes. -/
def wordsFrom (size : Nat) : (rest : List UInt8) → (offset : Nat) → (count : Nat) →
    Except EncodingFault (List UInt64)
  | _, _, 0 => .ok []
  | rest, offset, count + 1 =>
    match LittleEndian.splitWord? rest with
    | some (word, rest) => (wordsFrom size rest (offset + 8) count).map (word :: ·)
    | none => .error (.wordPastEnd offset size)

/-- Reads `count` words at `offset`. -/
def readWords (bytes : List UInt8) (offset count : Nat) : Except EncodingFault (List UInt64) :=
  wordsFrom bytes.length (bytes.drop offset) offset count

/-- Reads `count` properties at `offset`. -/
def readProperties (bytes : List UInt8) (offset count : Nat) :
    Except EncodingFault (List Binary64) :=
  (readWords bytes offset count).map (·.map Binary64.mk)

/-- The fault of a var-long that starts at `offset`. -/
def VarLong.Failure.toFault (offset : Nat) : VarLong.Failure → EncodingFault
  | .truncated => .truncatedVarLong offset
  | .overflow => .varLongOverflow offset

/-- Reads the var-long at `offset`: the word and the number of bytes it took. -/
def readVarLong (bytes : List UInt8) (offset : Nat) : Except EncodingFault (UInt64 × Nat) :=
  match VarLong.decode (bytes.drop offset) with
  | .ok r => .ok r
  | .error failure => .error (failure.toFault offset)

/-- Reads `count` var-longs one after the other, and where it stopped. -/
def readVarLongs (bytes : List UInt8) : (count offset : Nat) →
    Except EncodingFault (List UInt64) × Nat
  | 0, offset => (.ok [], offset)
  | count + 1, offset =>
    match readVarLong bytes offset with
    | .error fault => (.error fault, offset)
    | .ok (word, used) =>
      let (rest, stop) := readVarLongs bytes count (offset + used)
      (rest.map (word :: ·), stop)

/-- A position in a packed list. -/
structure BlockDecoder where
  degree : Nat
  tail : Tail
  withProperties : Bool
  block : Nat := 0
  offset : Nat
  running : UInt64 := 0
  decoded : Nat := 0
deriving DecidableEq, Repr

namespace BlockDecoder

/-- The decoder at the front of a list. -/
def start (degree : Nat) (tail : Tail) (withProperties : Bool) : BlockDecoder :=
  { degree, tail, withProperties, offset := Packed.headerLength degree tail }

/-- Targets not yet decoded. -/
def remaining (d : BlockDecoder) : Nat := d.degree - d.decoded

/-- Reads the `count` gaps of a bit-packed block. -/
def readBlock (d : BlockDecoder) (bytes : List UInt8) (count : Nat) :
    Except EncodingFault (List UInt64) × BlockDecoder :=
  match bytes[d.block]? with
  | none => (.error (.missingWidth d.block), d)
  | some byte =>
    let bits := byte.toNat
    if 64 < bits then (.error (.blockWidth d.block bits), d)
    else
      let slots := if count < blockSize ∧ d.tail = .packed then count else blockSize
      let size := Bits.byteCount bits slots
      match LittleEndian.slice? bytes d.offset size with
      | none => (.error (.blockPastEnd d.block size d.offset bytes.length), d)
      | some block =>
        match Bits.unpack block bits count with
        | .error fault => (.error fault, d)
        | .ok gaps => (.ok gaps, { d with offset := d.offset + size, block := d.block + 1 })

/-- Reads the next `count` gaps, whatever they are written as. -/
def readGaps (d : BlockDecoder) (bytes : List UInt8) (count : Nat) :
    Except EncodingFault (List UInt64) × BlockDecoder :=
  if count < blockSize ∧ d.tail = .varLong then
    let (gaps, offset) := readVarLongs bytes count d.offset
    (gaps, { d with offset })
  else d.readBlock bytes count

/-- Reads the properties of the block just passed and counts it as decoded.  Without a buffer the
properties are skipped unread. -/
def readBlockProperties (d : BlockDecoder) (bytes : List UInt8) (buffered : Bool)
    (targets : List UInt64) : Except EncodingFault Chunk × BlockDecoder :=
  let count := targets.length
  if d.withProperties then
    match if buffered then readProperties bytes d.offset count else .ok [] with
    | .error fault => (.error fault, d)
    | .ok properties =>
      (.ok { targets, properties },
        { d with offset := d.offset + count * 8, decoded := d.decoded + count })
  else (.ok { targets }, { d with decoded := d.decoded + count })

/-- Decodes the next block; an empty chunk once nothing remains. -/
def next (d : BlockDecoder) (bytes : List UInt8) (buffered : Bool) :
    Except EncodingFault Chunk × BlockDecoder :=
  let count := min d.remaining blockSize
  if count = 0 then (.ok {}, d)
  else
    match d.readGaps bytes count with
    | (.error fault, d) => (.error fault, d)
    | (.ok gaps, d) =>
      let targets := Packed.totals d.running gaps
      let running := targets.getLast?.getD d.running
      { d with running }.readBlockProperties bytes buffered targets

end BlockDecoder

end NeighborGraph
