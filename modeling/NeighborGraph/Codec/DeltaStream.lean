import NeighborGraph.Fault
import NeighborGraph.Codec.ZigZag
import NeighborGraph.Codec.VarLong

/-!
# Delta streams — sequences as zig-zag var-long steps

A sequence of words is written as the steps from each word to the next (the first one from zero),
taken modulo 2^64, zig-zag mapped and spelled as var-longs.  The words need no order.

Reading is resumable.  `DeltaStream.read` takes a `Position` and fills a number of slots; the
`Reading` it returns holds what was written, also when a malformed word stopped it.

## Position after a failure

A malformed word leaves the offset where the call found it.  The running total has by then moved
with the words read before the fault, and it stays moved.
-/

namespace NeighborGraph.DeltaStream

/-- The word of the step from `previous` to `word`. -/
def step (previous word : UInt64) : UInt64 := ZigZag.encode (word - previous).toInt64

/-- The total after the step a word stands for. -/
def advance (running word : UInt64) : UInt64 := running + (ZigZag.decode word).toUInt64

/-- Bytes of the sequence `words` that follows `previous`. -/
def encodeFrom : (previous : UInt64) → (words : List UInt64) → List UInt8
  | _, [] => []
  | previous, word :: rest => VarLong.encode (step previous word) ++ encodeFrom word rest

/-- Bytes of a sequence. -/
def encode (words : List UInt64) : List UInt8 := encodeFrom 0 words

/-- Writes a sequence behind what a buffer holds. -/
def append (buffer : List UInt8) (words : List UInt64) : Appended :=
  let longer := buffer ++ encode words
  ⟨longer, longer.length - buffer.length⟩

/-- Where reading stands: the next byte and the last word. -/
structure Position where
  offset : Nat := 0
  running : UInt64 := 0
deriving DecidableEq, Repr, Inhabited

/-- What one call of `read` did. -/
structure Reading where
  /-- Words written to the slots, in order. -/
  written : List UInt64
  position : Position
  /-- How many words were read, or what stopped reading. -/
  outcome : Except EncodingFault Nat

/-- Puts a written word in front. -/
def Reading.cons (word : UInt64) (r : Reading) : Reading := { r with written := word :: r.written }

/-- A word in the middle of being read: where it starts, and its groups so far. -/
structure Partial where
  start : Nat
  shift : Nat := 0
  word : UInt64 := 0

/-- Reads from `window`, the bytes from `offset` to the limit.  `origin` is the offset the call
started from and `count` the number of words read since. -/
def readFrom (map : UInt64 → UInt64) (origin : Nat) :
    (window : List UInt8) → (slots : Nat) → (offset count : Nat) → (current : Partial) →
    (running : UInt64) → Reading
  | [], _, offset, count, current, running =>
    if current.shift ≠ 0 then
      ⟨[], ⟨origin, running⟩, .error (.unterminatedVarLong current.start)⟩
    else ⟨[], ⟨offset, running⟩, .ok count⟩
  | _ :: _, 0, offset, count, _, running => ⟨[], ⟨offset, running⟩, .ok count⟩
  | byte :: rest, slots + 1, offset, count, current, running =>
    if VarLong.overflows current.shift byte then
      ⟨[], ⟨origin, running⟩, .error (.varLongOverflow current.start)⟩
    else
      let word := current.word ||| VarLong.payload current.shift byte
      if VarLong.isLast byte then
        let total := advance running word
        (readFrom map origin rest slots (offset + 1) (count + 1) ⟨offset + 1, 0, 0⟩ total).cons
          (map total)
      else
        readFrom map origin rest (slots + 1) (offset + 1) count
          ⟨current.start, current.shift + 7, word⟩ running

/-- Fills up to `slots` slots from the bytes before `limit`, passing each word through `map`. -/
def read (map : UInt64 → UInt64) (bytes : List UInt8) (limit : Nat) (position : Position)
    (slots : Nat) : Reading :=
  if bytes.length < limit then
    ⟨[], position, .error (.limitBeyondBuffer limit bytes.length)⟩
  else
    readFrom map position.offset ((bytes.take limit).drop position.offset) slots position.offset 0
      ⟨position.offset, 0, 0⟩ position.running

/-- Reads the whole stream before `limit`; it must not hold more words than there are slots. -/
def readAll (map : UInt64 → UInt64) (bytes : List UInt8) (limit slots : Nat) :
    Except EncodingFault (List UInt64) :=
  let r := read map bytes limit {} slots
  match r.outcome with
  | .error fault => .error fault
  | .ok _ =>
    if r.position.offset < limit then
      .error (.outputExhausted slots (limit - r.position.offset))
    else .ok r.written

/-- Slots after words were written to the first of them. -/
def fill (slots words : List UInt64) : List UInt64 := words ++ slots.drop words.length

/-- Reads the whole stream before `limit` into slots: the number of words, and the slots afterwards. -/
def readInto (map : UInt64 → UInt64) (bytes : List UInt8) (limit : Nat) (slots : List UInt64) :
    Except EncodingFault (Nat × List UInt64) :=
  (readAll map bytes limit slots.length).map fun written => (written.length, fill slots written)

end NeighborGraph.DeltaStream
