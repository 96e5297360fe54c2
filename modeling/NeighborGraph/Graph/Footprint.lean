import NeighborGraph.Codec.Mode
import NeighborGraph.Codec.VarLong

/-!
# Footprints — how many bytes a graph takes

A `Footprint` bounds a number of bytes from both sides.  `Footprint.ofGraph` bounds what the
offsets, degrees and encoded lists of a graph take when only its dimensions are known.
-/

namespace NeighborGraph

/-- An inclusive range of bytes. -/
structure Footprint where
  min : Nat
  max : Nat
deriving DecidableEq, Repr

namespace Footprint

/-- Exactly `bytes`. -/
def of (bytes : Nat) : Footprint := ⟨bytes, bytes⟩

/-- Between two bounds; the upper one is raised to the lower one if need be. -/
def between (low high : Nat) : Footprint := ⟨low, Nat.max high low⟩

/-- The range of a sum. -/
def add (a b : Footprint) : Footprint := ⟨a.min + b.min, a.max + b.max⟩

/-- The range of a multiple. -/
def times (a : Footprint) (factor : Nat) : Footprint := ⟨a.min * factor, a.max * factor⟩

/-- Whether a number of bytes lies in the range. -/
def contains (a : Footprint) (bytes : Nat) : Bool := a.min ≤ bytes && bytes ≤ a.max

/-- Offsets and degrees of a graph. -/
def fixedPart (nodes : Nat) : Footprint := of ((nodes + 1) * 8 + nodes * 4)

/-- Encoded targets.  At most one list per node, and per relationship, ends in a partial block. -/
def targetPart (nodes relationships : Nat) : Mode → Footprint
  | .plain => of (relationships * 8)
  | .varLong => between relationships (relationships * VarLong.maxBytes)
  | .packed tail =>
    let blocks := relationships / blockSize
    let tails := Nat.min nodes relationships
    let most := match tail with
      | .aligned => blocks + tails + (relationships + tails * blockSize) * 8
      | .packed => blocks + tails + relationships * 8
      | .varLong => blocks + relationships * VarLong.maxBytes
    between blocks most

/-- Relationship properties. -/
def propertyPart (relationships : Nat) (withProperties : Bool) : Footprint :=
  of (if withProperties then relationships * 8 else 0)

/-- The range of a graph with the given dimensions. -/
def ofGraph (nodes relationships : Nat) (mode : Mode) (withProperties : Bool) : Footprint :=
  ((targetPart nodes relationships mode).add (propertyPart relationships withProperties)).add
    (fixedPart nodes)

end Footprint

end NeighborGraph
