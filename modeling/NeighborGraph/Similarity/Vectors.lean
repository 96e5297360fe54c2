import NeighborGraph.Binary64

/-!
# Vectors — distances and angles

Distances and angles of number lists, in floating-point arithmetic and in a fixed order of
operations.  Two lists are compared position by position up to the end of the shorter one.

A similarity is NaN when the lists cannot be compared; cosine and correlation are cut off below at
zero.
-/

namespace NeighborGraph.Vectors

/-- The number that says "not comparable". -/
def incomparable : Float := Binary64.nan.toFloat

/-- The neutral element of addition.  Zero is not: it would turn a sum of negative zeros around. -/
def emptySum : Float := -0.0

/-- The sum, from left to right. -/
def sum (xs : List Float) : Float := xs.foldl (· + ·) emptySum

/-- Distance `d` becomes similarity `1 / (1 + d)`. -/
def ofDistance (distance : Float) : Float := 1.0 / (1.0 + distance)

/-! ### Distance -/

/-- The square of a difference. -/
def squaredStep (x y : Float) : Float := (x - y) * (x - y)

/-- Squared Euclidean distance. -/
def squaredDistance (a b : List Float) : Float := sum (List.zipWith squaredStep a b)

/-- Euclidean similarity. -/
def euclidean (a b : List Float) : Float := ofDistance (squaredDistance a b).sqrt

/-- The square of a difference, in 32 bits. -/
def squaredStep32 (x y : Float32) : Float32 := (x - y) * (x - y)

/-- Squared Euclidean distance, in 32 bits throughout. -/
def squaredDistance32 (a b : List Float32) : Float32 :=
  (List.zipWith squaredStep32 a b).foldl (· + ·) (-0.0)

/-- Euclidean similarity of 32-bit vectors: the sum has 32 bits, the rest 64. -/
def euclidean32 (a b : List Float32) : Float :=
  ofDistance (Binary32.toFloat ⟨(squaredDistance32 a b).toBits⟩).sqrt

/-! ### Angle -/

/-- The sums that make a cosine. -/
structure Products where
  dot : Float := 0.0
  left : Float := 0.0
  right : Float := 0.0

/-- Adds the products of one position. -/
def Products.add (p : Products) (x y : Float) : Products :=
  { dot := p.dot + x * y, left := p.left + x * x, right := p.right + y * y }

/-- The products of two vectors. -/
def products (a b : List Float) : Products :=
  (a.zip b).foldl (fun p (x, y) => p.add x y) {}

/-- The larger of a number and zero; zero in place of NaN. -/
def atLeastZero (x : Float) : Float := if 0.0 < x then x else 0.0

/-- The cosine that products make; a vector without length has none. -/
def Products.cosine (p : Products) : Float :=
  let lengths := (p.left * p.right).sqrt
  if lengths == 0.0 then incomparable else atLeastZero (p.dot / lengths)

/-- Cosine similarity. -/
def cosine (a b : List Float) : Float := (products a b).cosine

/-- Mean over the given number of entries. -/
def mean (xs : List Float) (count : Nat) : Float := sum xs / Float.ofNat count

/-- Pearson correlation: the cosine of the vectors moved by their means. -/
def pearson (a b : List Float) : Float :=
  let count := a.length
  if count = 0 then incomparable
  else
    let meanA := mean a count
    let meanB := mean b count
    let p := (a.zip b).foldl (fun (p : Products) (x, y) => p.add (x - meanA) (y - meanB)) {}
    p.cosine

end NeighborGraph.Vectors
