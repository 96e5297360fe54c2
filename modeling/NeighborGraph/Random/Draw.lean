import NeighborGraph.Action
import NeighborGraph.Random.Stream

/-!
# Draws — numbers, coins and orders from a stream

A number below `n` is the high half of the product of `n` and a random word.  Words whose low half
falls into the last, incomplete part of the word range are rejected, which makes every number
equally likely.  A drawn number is below `n` whatever the word, so a draw that runs out of
`patience` takes its last word; with the odds of a rejection below one half that never shows.
-/

namespace NeighborGraph.Random

/-- An action that draws from a stream. -/
abbrev Draw (α : Type) := Action Stream α

/-- The next 32-bit word as a number. -/
def next32 : Draw Nat := fun s => let (w, s) := s.word32; (.ok w.toNat, s)

/-- The next 64-bit word as a number. -/
def next64 : Draw Nat := fun s => let (w, s) := s.word64; (.ok w.toNat, s)

/-- The next 64-bit word, as a seed. -/
def nextSeed : Draw UInt64 := fun s => let (w, s) := s.word64; (.ok w, s)

/-- How many words a draw may reject. -/
def patience : Nat := 4096

/-- Largest low half that is accepted for numbers below `n` from words of `width` bits. -/
def zone (width n : Nat) : Nat := (n <<< (width - (n.log2 + 1))) - 1

/-- Draws words until one is accepted. -/
def belowFrom (width n : Nat) (next : Draw Nat) : (more : Nat) → Draw Nat
  | 0 => do return (← next) * n / Nat.pow 2 width
  | more + 1 => do
    let product := (← next) * n
    if product % Nat.pow 2 width ≤ zone width n then return product / Nat.pow 2 width
    else belowFrom width n next more

/-- A number below `n` from 32-bit words. -/
def below32 (n : Nat) : Draw Nat :=
  if n = 0 then Action.fail (.crash .emptyRange) else belowFrom 32 n next32 patience

/-- A number below `n` from 64-bit words. -/
def below64 (n : Nat) : Draw Nat :=
  if n = 0 then Action.fail (.crash .emptyRange) else belowFrom 64 n next64 patience

/-- A coin that shows true with probability `p`.  Certainty draws nothing. -/
def coin (p : Float) : Draw Bool :=
  if p == 1.0 then return true
  else if 0.0 ≤ p ∧ p < 1.0 then do
    return (← next64) < (p * 18446744073709551616.0).toUInt64.toNat
  else Action.fail (.crash .notAProbability)

/-- Exchanges two places of an array. -/
def exchange (i j : Nat) (xs : Array Nat) : Array Nat := xs.swapIfInBounds i j

/-- Exchanges every place from `i` down to the second with one not above it. -/
def shuffleFrom : (i : Nat) → Array Nat → Draw (Array Nat)
  | 0, xs => return xs
  | i + 1, xs => do
    let j ← below32 (i + 2)
    shuffleFrom i (exchange (i + 1) j xs)

/-- A random order. -/
def shuffle (xs : Array Nat) : Draw (Array Nat) :=
  if xs.size < 2 then return xs else shuffleFrom (xs.size - 1) xs

end NeighborGraph.Random
