import NeighborGraph.Binary

/-!
# Shortest decimals — the fewest digits that read back

A finite number other than zero is `m * 2^q` with naturals `m` and an integer `q`.  The reals that
round to it form an interval around it, whose ends belong to it exactly when `m` is even.
`Decimal.shortest` looks at the grids of 1, 2, … 17 significant digits and takes the first one with
a point of that interval.  Of a grid only the two neighbours of the number matter; when both lie in
the interval the nearer one wins, and `TieRule` decides between equally near ones.

All tests are exact: they cross-multiply naturals.
-/

namespace NeighborGraph

namespace Decimal

/-- Which of two equally near decimals is taken. -/
inductive TieRule
  | upward
  | even
deriving DecidableEq, Repr

/-- The decimal `digits * 10^exponent`. -/
structure Digits where
  digits : Nat
  exponent : Int
deriving DecidableEq, Repr, Inhabited

end Decimal

namespace Binary

open Decimal

/-- Four times the significand, with the exponent lowered to match; the ends of the interval are
whole numbers in this unit. -/
def center (b : Binary) : Nat := 4 * b.significand

/-- Lower end of the interval. -/
def lower (b : Binary) : Nat := b.center - (if b.lowest then 1 else 2)

/-- Upper end of the interval. -/
def upper (b : Binary) : Nat := b.center + 2

/-- `x * 2^(exponent - 2)` and `digits * 10^place`, brought to a common unit. -/
def scale (b : Binary) (x : Nat) (d : Digits) : Nat × Nat :=
  let e := b.exponent - 2
  (x * Nat.pow 2 e.toNat * Nat.pow 10 (-d.exponent).toNat,
    d.digits * Nat.pow 10 d.exponent.toNat * Nat.pow 2 (-e).toNat)

/-- Whether a decimal reads back as this number. -/
def readsBack (b : Binary) (d : Digits) : Bool :=
  let (low, x) := b.scale b.lower d
  let (high, _) := b.scale b.upper d
  if b.significand % 2 = 0 then low ≤ x && x ≤ high else low < x && x < high

/-- Decimal position of the leading digit: the number is at least `10^p` and below `10^(p + 1)`. -/
def leadingPlace (b : Binary) : Int :=
  if 0 ≤ b.exponent then
    ((Nat.toDigits 10 (b.significand * Nat.pow 2 b.exponent.toNat)).length : Int) - 1
  else
    let shifted := b.significand * Nat.pow 10 344 / Nat.pow 2 (-b.exponent).toNat
    ((Nat.toDigits 10 shifted).length : Int) - 1 - 344

/-- The largest decimal with the given place that does not exceed the number. -/
def floorAt (b : Binary) (place : Int) : Digits :=
  let (x, unit) := b.scale b.center ⟨1, place⟩
  ⟨x / unit, place⟩

/-- Of the two neighbours on the grid of `place`, the one that stands for the number. -/
def pick (tie : TieRule) (b : Binary) (place : Int) : Option Digits :=
  let down := b.floorAt place
  let up : Digits := { down with digits := down.digits + 1 }
  match b.readsBack down, b.readsBack up with
  | false, false => none
  | true, false => some down
  | false, true => some up
  | true, true =>
    let (x, below) := b.scale b.center down
    let (_, above) := b.scale b.center up
    let toDown := x - below
    let toUp := above - x
    if toDown < toUp then some down
    else if toUp < toDown then some up
    else match tie with
      | .upward => some up
      | .even => some (if down.digits % 2 = 0 then down else up)

end Binary

namespace Decimal

/-- Drops trailing zeros; `fuel` bounds their number. -/
def Digits.strip : (fuel : Nat) → Digits → Digits
  | 0, d => d
  | fuel + 1, d =>
    if d.digits % 10 = 0 ∧ d.digits ≠ 0 then strip fuel ⟨d.digits / 10, d.exponent + 1⟩ else d

/-- The shortest decimal of a finite number other than zero. -/
def shortest (tie : TieRule) (b : Binary) : Digits :=
  let place := b.leadingPlace
  let found := (List.range 17).findSome? fun (extra : Nat) => b.pick tie (place - extra)
  (found.getD (b.floorAt (place - 16))).strip 17

end Decimal

end NeighborGraph
