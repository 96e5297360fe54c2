/-!
# Binary fractions — finite numbers as a significand and an exponent

A finite floating-point number is a natural number times a power of two.  `Binary.ofBits?` reads
both off its bits; everything that has to be exact, from decimal digits to rounding, starts there.
-/

namespace NeighborGraph

/-- A finite number as `significand * 2^exponent`; `lowest` says that the next smaller number is
only half a step away. -/
structure Binary where
  significand : Nat
  exponent : Int
  lowest : Bool
deriving DecidableEq, Repr

namespace Binary

/-- The magnitude of the number with the given bits, if it is finite. -/
def ofBits? (bits : UInt64) : Option Binary :=
  let exponent := ((bits >>> 52) &&& 0x7ff).toNat
  let fraction := (bits &&& 0xfffffffffffff).toNat
  if exponent = 0x7ff then none
  else if exponent = 0 then some ⟨fraction, -1074, false⟩
  else some ⟨fraction + 0x10000000000000, (exponent : Int) - 1075, fraction = 0 && 1 < exponent⟩

/-- The largest whole number that does not exceed the magnitude. -/
def floor (b : Binary) : Nat :=
  b.significand * Nat.pow 2 b.exponent.toNat / Nat.pow 2 (-b.exponent).toNat

/-- Whether the magnitude is a whole number. -/
def isWhole (b : Binary) : Bool :=
  b.significand * Nat.pow 2 b.exponent.toNat % Nat.pow 2 (-b.exponent).toNat == 0

end Binary

end NeighborGraph
