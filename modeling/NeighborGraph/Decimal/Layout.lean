import NeighborGraph.Decimal.Shortest

/-!
# Decimal layouts — how the digits of a number are set

A `Layout` holds every decision of a format: which numbers are written positionally and which with
an exponent, whether a whole number keeps a point, which of two equally near decimals is taken and
what stands for a number that is not finite.
-/

namespace NeighborGraph

namespace Decimal

/-- Every decision of a number format. -/
structure Layout where
  /-- Decimal places of the leading digit that are written positionally; `none` for all. -/
  positional : Option (Int × Int)
  /-- Whether a whole number is written with `.0`. -/
  keepPoint : Bool
  tie : TieRule
  nan : String
  positiveInfinity : String
  negativeInfinity : String

namespace Layout

/-- The digits of a natural. -/
def digitsOf (n : Nat) : List Char := Nat.toDigits 10 n

/-- A number of zeros. -/
def zeros (count : Nat) : List Char := List.replicate count '0'

/-- Digits written out in full, with a point where it is needed. -/
def setPositional (layout : Layout) (d : Digits) : List Char :=
  let text := digitsOf d.digits
  if 0 ≤ d.exponent then
    text ++ zeros d.exponent.toNat ++ (if layout.keepPoint then ['.', '0'] else [])
  else
    let places := (-d.exponent).toNat
    let padded := zeros (places + 1 - text.length) ++ text
    padded.take (padded.length - places) ++ '.' :: padded.drop (padded.length - places)

/-- Digits with an exponent, whose sign is always written. -/
def setExponent (d : Digits) : List Char :=
  let text := digitsOf d.digits
  let exponent := d.exponent + (text.length : Int) - 1
  text.take 1 ++ (if text.length = 1 then [] else ['.']) ++ text.drop 1
    ++ 'e' :: (if exponent < 0 then '-' else '+') :: digitsOf exponent.natAbs

/-- The digits of a magnitude. -/
def set (layout : Layout) (d : Digits) : List Char :=
  match layout.positional with
  | none => layout.setPositional d
  | some (first, last) =>
    let place := d.exponent + ((digitsOf d.digits).length : Int) - 1
    if first ≤ place ∧ place ≤ last then layout.setPositional d else setExponent d

/-- The characters of a number. -/
def characters (layout : Layout) (x : Float) : List Char :=
  let bits := x.toBits
  let negative := bits >>> 63 != 0
  match Binary.ofBits? bits with
  | none =>
    (if x.isNaN then layout.nan
    else if negative then layout.negativeInfinity else layout.positiveInfinity).toList
  | some b =>
    (if negative then ['-'] else [])
      ++ layout.set (if b.significand = 0 then ⟨0, 0⟩ else shortest layout.tie b)

/-- The text of a number. -/
def render (layout : Layout) (x : Float) : String := String.ofList (layout.characters x)

end Layout

end Decimal

end NeighborGraph
