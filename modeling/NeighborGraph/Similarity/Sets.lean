import NeighborGraph.Runs

/-!
# Set similarities

A set of longs is an ascending list without repeats; `Sets.normalize` makes one of any list.  The
similarities compare the number of common elements with the size of the union (`jaccard`) or of the
smaller set (`overlap`); they are NaN where that size is zero.
-/

namespace NeighborGraph.Sets

/-- The set of a list's elements. -/
def normalize (values : List Int64) : List Int64 :=
  dropRepeats (values.mergeSort fun x y => decide (x ≤ y))

/-- Number of common elements of two sets, found by merging them. -/
def intersectionSize : (a b : List Int64) → Nat
  | [], _ => 0
  | _ :: _, [] => 0
  | x :: xs, y :: ys =>
    if x < y then intersectionSize xs (y :: ys)
    else if y < x then intersectionSize (x :: xs) ys
    else intersectionSize xs ys + 1
termination_by a b => a.length + b.length

/-- The quotient of two counts; NaN over zero. -/
def ratio (count whole : Nat) : Float :=
  if whole = 0 then Float.ofBits 0x7ff8000000000000 else Float.ofNat count / Float.ofNat whole

/-- Common elements over elements of either set. -/
def jaccard (a b : List Int64) : Float :=
  let common := intersectionSize a b
  ratio common (a.length + b.length - common)

/-- Common elements over elements of the smaller set. -/
def overlap (a b : List Int64) : Float :=
  let smaller := min a.length b.length
  if smaller = 0 then ratio 0 0 else ratio (intersectionSize a b) smaller

end NeighborGraph.Sets
