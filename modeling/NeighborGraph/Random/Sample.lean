import NeighborGraph.Random.Draw

/-!
# Samples — some of the numbers below a bound

`Random.sample length amount` draws `amount` different numbers below `length`, in random order.
There are three ways to do it, and the choice between them weighs the two sizes:

* *in place*: the first places of a shuffle of all numbers;
* *by insertion*: numbers enter one by one, a repeated one being replaced by the newest bound;
* *by rejection*: numbers are drawn until enough different ones have come up.

The weighing is done in 32-bit floating-point arithmetic, because its rounding decides borderline
cases.
-/

namespace NeighborGraph.Random

/-- How a sample is drawn. -/
inductive Method
  | inPlace
  | insertion
  | rejection
deriving DecidableEq, Repr

/-- Lengths from here on are weighed with other factors. -/
def longLength : Nat := 500000

/-- A count in 32-bit floating-point arithmetic. -/
def weight (n : Nat) : Float32 := n.toUInt32.toFloat32

/-- The way to draw a sample. -/
def Method.choose (length amount : Nat) : Method :=
  if amount < 163 then
    let slope : Float32 := if length < longLength then 1.6 else 8.0 / 45.0
    let base : Float32 := if length < longLength then 10.0 else 70.0 / 9.0
    if 11 < amount ∧ weight length < (base + slope * weight amount) * weight amount then inPlace
    else insertion
  else
    let factor : Float32 := if length < longLength then 270.0 else 330.0 / 9.0
    if weight length < factor * weight amount then inPlace else rejection

/-- Fills the places from `length - more` on with numbers not placed before. -/
def placeFrom (length : Nat) : (amount i : Nat) → Array Nat → Draw (Array Nat)
  | 0, _, xs => return xs
  | amount + 1, i, xs => do
    let j ← below32 (length - i)
    placeFrom length amount (i + 1) (exchange i (i + j) xs)

/-- A sample in place. -/
def sampleInPlace (length amount : Nat) : Draw (List Nat) := do
  let xs ← placeFrom length amount 0 (Array.range length)
  return (xs.toList.take amount)

/-- Puts `new` where `old` stands, and `old` after it. -/
def insertBefore (old new : Nat) : List Nat → List Nat
  | [] => []
  | x :: rest => if x = old then new :: x :: rest else x :: insertBefore old new rest

/-- The number `t` enters a sample; if it is in there, the bound `j` enters in its stead, before it
when `ordered` and at the end otherwise. -/
def enter (ordered : Bool) (j t : Nat) (xs : List Nat) : List Nat :=
  if xs.contains t then
    if ordered then insertBefore t j xs else xs ++ [j]
  else xs ++ [t]

/-- One number enters for every bound from `j` on. -/
def enterFrom (ordered : Bool) : (more j : Nat) → List Nat → Draw (List Nat)
  | 0, _, xs => return xs
  | more + 1, j, xs => do
    let t ← below32 (j + 1)
    enterFrom ordered more (j + 1) (enter ordered j t xs)

/-- A sample by insertion.  Small samples come out in random order; large ones are shuffled. -/
def sampleByInsertion (length amount : Nat) : Draw (List Nat) := do
  let ordered := decide (amount < 50)
  let xs ← enterFrom ordered amount (length - amount) []
  if ordered then return xs
  else return (← shuffle xs.toArray).toList

/-- Number of 32-bit words. -/
def wordCount : Nat := 4294967296

/-- Largest low half that is accepted when numbers below `n` are drawn by rejection. -/
def rejectionZone (n : Nat) : Nat := wordCount - 1 - (wordCount - n) % n

/-- A number below `n`, drawn from 32-bit words with the widest possible zone. -/
def belowByRejection (n : Nat) : (more : Nat) → Draw Nat
  | 0 => do return (← next32) * n / wordCount
  | more + 1 => do
    let product := (← next32) * n
    if product % wordCount ≤ rejectionZone n then return product / wordCount
    else belowByRejection n more

/-- A number below `n` that is not in `xs`; out of patience, the smallest one. -/
def freshBelow (n : Nat) (xs : List Nat) : (more : Nat) → Draw Nat
  | 0 => return ((List.range n).find? fun x => !xs.contains x).getD 0
  | more + 1 => do
    let x ← belowByRejection n patience
    if xs.contains x then freshBelow n xs more else return x

/-- Adds `more` numbers that are not in `xs` yet. -/
def rejectFrom (length : Nat) : (more : Nat) → List Nat → Draw (List Nat)
  | 0, xs => return xs
  | more + 1, xs => do
    let x ← freshBelow length xs patience
    rejectFrom length more (xs ++ [x])

/-- Different numbers below `length`, as many as `amount` says. -/
def sample (length amount : Nat) : Draw (List Nat) :=
  if length < amount then Action.fail (.crash .sampleTooLarge)
  else
    match Method.choose length amount with
    | .inPlace => sampleInPlace length amount
    | .insertion => sampleByInsertion length amount
    | .rejection => rejectFrom length amount []

end NeighborGraph.Random
