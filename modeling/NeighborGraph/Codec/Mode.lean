/-!
# Modes — how an adjacency list is encoded

A `Mode` names the encoding of a whole list; the packed ones also name what happens to the last
block when it is not full.  `Mode.tag` is the byte that stands for a mode in a graph file.
-/

namespace NeighborGraph

/-- Number of targets in a full block. -/
def blockSize : Nat := 64

/-- How the last, partial block of a packed list is written. -/
inductive Tail
  /-- Padded to a full block. -/
  | aligned
  /-- As many bits as its targets need. -/
  | packed
  /-- As var-longs, without a width. -/
  | varLong
deriving DecidableEq, Repr, Inhabited

/-- How an adjacency list is encoded. -/
inductive Mode
  /-- One 8-byte word per target. -/
  | plain
  /-- A delta stream. -/
  | varLong
  /-- Bit-packed blocks of gaps. -/
  | packed (tail : Tail)
deriving DecidableEq, Repr

namespace Tail

/-- Name in messages. -/
def label : Tail → String
  | aligned => "BlockAligned"
  | packed => "PackedTail"
  | varLong => "VarLongTail"

end Tail

namespace Mode

/-- The mode of a graph that asks for none. -/
def standard : Mode := varLong

instance : Inhabited Mode := ⟨standard⟩

/-- The byte that stands for a mode in a graph file. -/
def tag : Mode → Nat
  | plain => 0
  | varLong => 1
  | packed .aligned => 2
  | packed .packed => 3
  | packed .varLong => 4

/-- The mode a tag stands for. -/
def ofTag? : Nat → Option Mode
  | 0 => some plain
  | 1 => some varLong
  | 2 => some (packed .aligned)
  | 3 => some (packed .packed)
  | 4 => some (packed .varLong)
  | _ => none

/-- Name in messages. -/
def label : Mode → String
  | plain => "Uncompressed"
  | varLong => "VarLong"
  | packed tail => "Packed(" ++ tail.label ++ ")"

/-- Every mode is the one its tag stands for. -/
theorem ofTag?_tag (mode : Mode) : ofTag? mode.tag = some mode := by
  cases mode with
  | plain => rfl
  | varLong => rfl
  | packed tail => cases tail <;> rfl

end Mode

end NeighborGraph
