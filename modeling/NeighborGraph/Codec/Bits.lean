import NeighborGraph.Fault
import NeighborGraph.LittleEndian
import NeighborGraph.Codec.VarLong

/-!
# Bit buffers — values of chosen widths, least significant bit first

Bit `i` of a buffer is bit `i % 8` of its byte `i / 8`.  A value goes in and comes out byte by byte:
`put` and `gather` walk over the bytes, and every byte from the position on takes, or brings, as many
bits as it has left.

`Writer` writes values one after the other into a buffer of zeros, and `Reader` reads them.  A
refused write or read changes nothing.

A block of values of one width is one little-endian number, and `block` spells it at once.
-/

namespace NeighborGraph.Bits

/-- Number of significant bits across all values. -/
def widthOf (values : List UInt64) : Nat := VarLong.bitLength (values.foldl (· ||| ·) 0)

/-- Bytes that hold `count` values of `bits` bits each. -/
def byteCount (bits count : Nat) : Nat := (count * bits + 7) / 8

/-- The low `bits` bits of a value. -/
def low (bits : Nat) (value : UInt64) : Nat := value.toNat % Nat.pow 2 bits

/-- The word whose low `bits` bits are set. -/
def mask (bits : Nat) : UInt64 :=
  if 64 ≤ bits then 0xffffffffffffffff else (1 <<< bits.toUInt64) - 1

/-- How many of `left` bits the byte at the front has to do with, when they start at its bit
`position`. -/
def share (position left : Nat) : Nat := min (8 - position) left

/-! ### Writing -/

/-- Sets the bits from `position` on, so far zeros, to the low `left` bits of `value`. -/
def put : (bytes : List UInt8) → (position : Nat) → (value : UInt64) → (left : Nat) → List UInt8
  | [], _, _, _ => []
  | byte :: rest, position, value, left =>
    if left = 0 then byte :: rest
    else if 8 ≤ position then byte :: put rest (position - 8) value left
    else
      let taken := share position left
      let chunk := (value &&& mask taken).toUInt8
      (byte ||| chunk <<< position.toUInt8) :: put rest 0 (value >>> taken.toUInt64) (left - taken)

theorem length_put (bytes : List UInt8) (position : Nat) (value : UInt64) (left : Nat) :
    (put bytes position value left).length = bytes.length := by
  induction bytes generalizing position value left with
  | nil => rfl
  | cons byte rest ih =>
    rw [put]
    split
    · rfl
    · split <;> simp [ih]

/-- A buffer of `size` bytes that starts as zeros, written from the front. -/
structure Writer where
  size : Nat
  bytes : List UInt8 := List.replicate size 0
  position : Nat := 0
  length_bytes : bytes.length = size := by simp
deriving DecidableEq, Repr

namespace Writer

/-- Writes the low `bits` bits of `value`. -/
def write (w : Writer) (value : UInt64) (bits : Nat) : Except ArgumentFault Writer :=
  if bits = 0 then .ok w
  else if 64 < bits then .error (.bitWidth bits)
  else if w.size < (w.position + bits + 7) / 8 then
    .error (.bitWritePastEnd bits w.position w.size)
  else
    .ok { w with
      bytes := put w.bytes w.position (value &&& mask bits) bits
      position := w.position + bits
      length_bytes := by rw [length_put, w.length_bytes] }

/-- Writes values of one width, one after the other. -/
def writeAll (w : Writer) (bits : Nat) : List UInt64 → Except ArgumentFault Writer
  | [] => .ok w
  | value :: rest =>
    match w.write value bits with
    | .ok w => w.writeAll bits rest
    | .error fault => .error fault

/-- Bytes touched so far. -/
def bytesWritten (w : Writer) : Nat := (w.position + 7) / 8

end Writer

/-- Writes `values` at `bits` bits each into a zeroed buffer of `size` bytes. -/
def pack (values : List UInt64) (bits size : Nat) : Except ArgumentFault Writer :=
  ({ size } : Writer).writeAll bits values

/-! ### Blocks of one width -/

/-- The number that values of one width make, the first value lowest. -/
def concat (bits : Nat) : List UInt64 → Nat
  | [] => 0
  | value :: rest => low bits value + concat bits rest <<< bits

/-- The bytes of a block with room for `slots` values of `bits` bits. -/
def block (bits slots : Nat) (values : List UInt64) : List UInt8 :=
  LittleEndian.encode (byteCount bits slots) (concat bits values)

/-! ### Reading -/

/-- Adds the `left` bits from `position` on to a value, behind the `filled` bits it has. -/
def gather : (bytes : List UInt8) → (position : Nat) → (value : UInt64) → (filled left : Nat) →
    UInt64
  | [], _, value, _, _ => value
  | byte :: rest, position, value, filled, left =>
    if left = 0 then value
    else if 8 ≤ position then gather rest (position - 8) value filled left
    else
      let taken := share position left
      let chunk := (byte >>> position.toUInt8).toUInt64 &&& mask taken
      gather rest 0 (value ||| chunk <<< filled.toUInt64) (filled + taken) (left - taken)

/-- A buffer that is read from the front. -/
structure Reader where
  bytes : List UInt8
  position : Nat := 0
deriving DecidableEq, Repr

namespace Reader

/-- The reader at the front of some bytes. -/
def ofBytes (bytes : List UInt8) : Reader := { bytes }

/-- Reads a value of `bits` bits. -/
def read (r : Reader) (bits : Nat) : Except EncodingFault (UInt64 × Reader) :=
  if bits = 0 then .ok (0, r)
  else if 64 < bits then .error (.bitWidth bits)
  else if r.bytes.length < (r.position + bits + 7) / 8 then
    .error (.bitReadPastEnd bits r.position r.bytes.length)
  else .ok (gather r.bytes r.position 0 0 bits, { r with position := r.position + bits })

/-- Reads `count` values of one width. -/
def readAll (r : Reader) (bits : Nat) : (count : Nat) → Except EncodingFault (List UInt64)
  | 0 => .ok []
  | count + 1 =>
    match r.read bits with
    | .error fault => .error fault
    | .ok (value, r) => (r.readAll bits count).map (value :: ·)

end Reader

/-- Reads `count` values of `bits` bits each. -/
def unpack (bytes : List UInt8) (bits count : Nat) : Except EncodingFault (List UInt64) :=
  (Reader.ofBytes bytes).readAll bits count

end NeighborGraph.Bits
