/-!
# Random streams — a reproducible sequence of words

A `Stream` yields 32-bit words: the key stream of the ChaCha cipher with 12 rounds, block after
block.  `Stream.ofSeed` derives the eight key words from a 64-bit seed with a permuted congruential
generator.  A 64-bit word is two words of the stream, the low half first; no word is ever skipped.

The sixteen words of a block are kept as four rows.  A round works on the columns of these rows,
and the next one on the diagonals, which are the columns once the lower rows are rotated.
-/

namespace NeighborGraph

namespace Random

/-- Four words. -/
structure Row where
  x0 : UInt32
  x1 : UInt32
  x2 : UInt32
  x3 : UInt32
deriving DecidableEq, Repr, Inhabited

namespace Row

/-- Combines two rows word by word. -/
@[inline] def zip (f : UInt32 → UInt32 → UInt32) (a b : Row) : Row :=
  ⟨f a.x0 b.x0, f a.x1 b.x1, f a.x2 b.x2, f a.x3 b.x3⟩

/-- Sum modulo 2^32, word by word. -/
@[inline] def add (a b : Row) : Row := zip (· + ·) a b

/-- A word with its bits moved up by `count`, those that fall off coming in below. -/
@[inline] def rotateWord (count : UInt32) (w : UInt32) : UInt32 :=
  (w <<< count) ||| (w >>> (32 - count))

/-- Exclusive or of two rows, then every word rotated. -/
@[inline] def xorRotate (count : UInt32) (a b : Row) : Row :=
  zip (fun x y => rotateWord count (x ^^^ y)) a b

/-- The words moved one place to the front. -/
@[inline] def shift (a : Row) : Row := ⟨a.x1, a.x2, a.x3, a.x0⟩

/-- The words of a row. -/
def toList (a : Row) : List UInt32 := [a.x0, a.x1, a.x2, a.x3]

end Row

/-- The sixteen words of a block. -/
structure Block where
  a : Row
  b : Row
  c : Row
  d : Row
deriving DecidableEq, Repr, Inhabited

namespace Block

/-- A round on the columns. -/
def columnRound (s : Block) : Block :=
  let a := s.a.add s.b
  let d := Row.xorRotate 16 s.d a
  let c := s.c.add d
  let b := Row.xorRotate 12 s.b c
  let a := a.add b
  let d := Row.xorRotate 8 d a
  let c := c.add d
  let b := Row.xorRotate 7 b c
  ⟨a, b, c, d⟩

/-- Brings the diagonals into columns. -/
def skew (s : Block) : Block := ⟨s.a, s.b.shift, s.c.shift.shift, s.d.shift.shift.shift⟩

/-- Brings the diagonals back. -/
def unskew (s : Block) : Block := ⟨s.a, s.b.shift.shift.shift, s.c.shift.shift, s.d.shift⟩

/-- A round on the columns and one on the diagonals. -/
def doubleRound (s : Block) : Block := s.columnRound.skew.columnRound.unskew

/-- Several double rounds. -/
def doubleRounds : (count : Nat) → Block → Block
  | 0, s => s
  | count + 1, s => doubleRounds count s.doubleRound

/-- The words a start block yields: what twelve rounds make of it, added to itself. -/
def output (s : Block) : List UInt32 :=
  let r := doubleRounds 6 s
  (r.a.add s.a).toList ++ (r.b.add s.b).toList ++ (r.c.add s.c).toList ++ (r.d.add s.d).toList

end Block

/-- The constant row of every start block. -/
def constants : Row := ⟨0x61707865, 0x3320646e, 0x79622d32, 0x6b206574⟩

/-- A place in the sequence of words. -/
structure Stream where
  keyLow : Row
  keyHigh : Row
  /-- Number of the next block. -/
  counter : UInt64 := 0
  /-- Words of the current block that were not drawn yet. -/
  pending : List UInt32 := []
deriving DecidableEq, Repr, Inhabited

namespace Stream

/-! ### Seeds -/

/-- One step of the generator that spreads a seed. -/
def seedStep (state : UInt64) : UInt64 := state * 6364136223846793005 + 11634580027462260723

/-- The key word of a generator state. -/
def seedWord (state : UInt64) : UInt32 :=
  let x := (((state >>> 18) ^^^ state) >>> 27).toUInt32
  let turn := (state >>> 59).toUInt32
  (x >>> turn) ||| (x <<< ((32 - turn) &&& 31))

/-- The next `count` key words. -/
def seedWords : (count : Nat) → (state : UInt64) → List UInt32
  | 0, _ => []
  | count + 1, state => seedWord (seedStep state) :: seedWords count (seedStep state)

/-- The stream of a seed. -/
def ofSeed (seed : UInt64) : Stream :=
  match seedWords 8 seed with
  | [a, b, c, d, e, f, g, h] => { keyLow := ⟨a, b, c, d⟩, keyHigh := ⟨e, f, g, h⟩ }
  | _ => default

/-! ### Drawing words -/

/-- The words of the block with the stream's counter. -/
def block (s : Stream) : List UInt32 :=
  Block.output ⟨constants, s.keyLow, s.keyHigh,
    ⟨s.counter.toUInt32, (s.counter >>> 32).toUInt32, 0, 0⟩⟩

/-- The next 32-bit word. -/
def word32 (s : Stream) : UInt32 × Stream :=
  match s.pending with
  | w :: rest => (w, { s with pending := rest })
  | [] =>
    match s.block with
    | w :: rest => (w, { s with counter := s.counter + 1, pending := rest })
    | [] => (0, s)

/-- The next 64-bit word. -/
def word64 (s : Stream) : UInt64 × Stream :=
  let (low, s) := s.word32
  let (high, s) := s.word32
  (low.toUInt64 ||| (high.toUInt64 <<< 32), s)

end Stream

end Random

end NeighborGraph
