/-!
# Var-longs — words in groups of seven bits

A word is cut into groups of seven bits, least significant group first, one group per byte.  The
high bit marks the **last** byte of a word and is clear on every byte before it; at most ten bytes
make a word, and the tenth may only bring the topmost bit.

* `VarLong.encode` — the shortest spelling, `VarLong.size` bytes long;
* `VarLong.append` — writes it behind what a buffer holds;
* `VarLong.decode` — reads one word from the front of a byte list.
-/

namespace NeighborGraph

/-- A buffer after bytes were written behind what it held, and the number of those bytes. -/
structure Appended where
  buffer : List UInt8
  written : Nat
deriving DecidableEq, Repr

end NeighborGraph

namespace NeighborGraph.VarLong

/-- The longest spelling of a word. -/
def maxBytes : Nat := 10

/-- Number of significant bits of a word. -/
def bitLength (word : UInt64) : Nat := if word = 0 then 0 else word.toNat.log2 + 1

/-- Number of bytes `encode` writes. -/
def size (word : UInt64) : Nat := max ((bitLength word + 6) / 7) 1

/-- Mark of the last byte of a word. -/
def terminator : UInt8 := 0x80

/-- The groups of `word`, at most `more + 1` of them. -/
def groups : (more : Nat) → (word : UInt64) → List UInt8
  | 0, word => [word.toUInt8 ||| terminator]
  | more + 1, word =>
    if word < 0x80 then [word.toUInt8 ||| terminator]
    else (word &&& 0x7f).toUInt8 :: groups more (word >>> 7)

/-- The shortest spelling of a word.  After nine groups one bit is left, so ten are enough. -/
def encode (word : UInt64) : List UInt8 := groups (maxBytes - 1) word

/-- Writes a word behind what a buffer holds. -/
def append (buffer : List UInt8) (word : UInt64) : Appended :=
  let longer := buffer ++ encode word
  ⟨longer, longer.length - buffer.length⟩

/-- The spellings of several words, one after the other. -/
def encodeAll (words : List UInt64) : List UInt8 := words.flatMap encode

/-- Whether a byte ends its word. -/
def isLast (byte : UInt8) : Bool := byte &&& terminator != 0

/-- Whether a byte at bit position `shift` brings bits beyond the 64th. -/
def overflows (shift : Nat) (byte : UInt8) : Bool :=
  63 < shift || (shift == 63 && byte &&& 0x7e != 0)

/-- The seven bits of a byte, moved to bit position `shift`. -/
def payload (shift : Nat) (byte : UInt8) : UInt64 := (byte &&& 0x7f).toUInt64 <<< shift.toUInt64

/-- Why no word could be read. -/
inductive Failure
  | truncated
  | overflow
deriving DecidableEq, Repr

/-- Continues a word whose groups so far make `word` and took `used` bytes. -/
def decodeFrom : (bytes : List UInt8) → (shift : Nat) → (word : UInt64) → (used : Nat) →
    Except Failure (UInt64 × Nat)
  | [], _, _, _ => .error .truncated
  | byte :: rest, shift, word, used =>
    if overflows shift byte then .error .overflow
    else if isLast byte then .ok (word ||| payload shift byte, used + 1)
    else decodeFrom rest (shift + 7) (word ||| payload shift byte) (used + 1)

/-- Reads one word from the front: the word and the number of bytes it took. -/
def decode (bytes : List UInt8) : Except Failure (UInt64 × Nat) := decodeFrom bytes 0 0 0

end NeighborGraph.VarLong
