import NeighborGraph.Binary

/-!
# Rounding — numbers to whole numbers

`Rounding.up` and `Rounding.down` move a number to the next whole number above or below it and keep
its sign, also that of a zero; what is whole already, or not finite, stays.  A number whose fraction
is cut off has fewer than 53 bits left, so the whole number is exact.

`Rounding.count` reads a number as a count: what lies outside the range of a 64-bit word goes to the
nearer end of it.
-/

namespace NeighborGraph.Rounding

/-- Moves a number to a neighbouring whole number; `away` says whether its magnitude grows, given
whether it is negative. -/
def toWhole (away : Bool → Bool) (x : Float) : Float :=
  let bits := x.toBits
  match Binary.ofBits? bits with
  | none => x
  | some b =>
    if b.isWhole then x
    else
      let negative := bits >>> 63 != 0
      let size := Float.ofNat (if away negative then b.floor + 1 else b.floor)
      if negative then -size else size

/-- The next whole number that is not below. -/
def up (x : Float) : Float := toWhole (fun negative => !negative) x

/-- The next whole number that is not above. -/
def down (x : Float) : Float := toWhole (fun negative => negative) x

/-- A number as a count. -/
def count (x : Float) : Nat := x.toUInt64.toNat

end NeighborGraph.Rounding
