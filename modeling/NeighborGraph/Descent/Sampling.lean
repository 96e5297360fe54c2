import NeighborGraph.Config.Basic
import NeighborGraph.Descent.State
import NeighborGraph.Random.Sample

/-!
# Random candidates

A descent starts from random candidates.  A `Sampler` draws different nodes other than a given one:
all equally likely, or by a random walk along the relationships of the graph.  A walk goes back to
its start now and then, and when it ends; what it does not come by in time is filled up with equally
likely nodes.

`Descent.seedLists` compares every node of a range with its random candidates.
-/

namespace NeighborGraph

namespace Sampler

/-- Chance that a walk goes back to its start before a step. -/
def restartChance : Float := 0.25

/-- Steps a walk may take per candidate. -/
def stepsPerCandidate : Nat := 16

/-- Different nodes other than `node`, all equally likely: `amount` of them, or all there are. -/
def drawUniform (nodeCount node amount : Nat) : Random.Draw (List Nat) := do
  let others := nodeCount - 1
  let drawn ← Random.sample others (min amount others)
  return drawn.map fun x => if node ≤ x then x + 1 else x

/-- Whether the walk goes back to its start before the next step. -/
def restarts (node current degree : Nat) : Random.Draw Bool :=
  if degree = 0 then return true
  else if current = node then return false
  else Random.coin restartChance

/-- The nodes a walk has found, after it came by another one. -/
def visit (nodeCount node next : Nat) (found : List Nat) : List Nat :=
  if next ≠ node ∧ next < nodeCount ∧ !found.contains next then found ++ [next] else found

/-- Walks on from `current` until `amount` nodes are found, `steps` are taken or there is no way on
from the start. -/
def walk (g : CompressedGraph) (node amount : Nat) :
    (steps current : Nat) → (found : List Nat) → Random.Draw (List Nat)
  | 0, _, found => return found
  | steps + 1, current, found =>
    if amount ≤ found.length then return found
    else do
      let degree := g.degree current.toUInt64
      if ← restarts node current degree then
        if current = node then return found else walk g node amount steps node found
      else
        let index ← Random.below64 degree
        match ← Action.check (g.neighborAt current.toUInt64 index) with
        | none => return found
        | some next =>
          walk g node amount steps next.toNat (visit g.size node next.toNat found)

/-- Nodes a walk finds, filled up with equally likely ones. -/
def drawByWalk (g : CompressedGraph) (node amount : Nat) : Random.Draw (List Nat) := do
  let found ← walk g node amount (amount * stepsPerCandidate) node []
  if found.length < amount then
    let others ← drawUniform g.size node amount
    return (found ++ others).eraseDups.take amount
  else return found

/-- Different nodes other than `node`. -/
def draw (s : Sampler) (g : CompressedGraph) (node amount : Nat) : Random.Draw (List Nat) :=
  match s with
  | uniform => drawUniform g.size node amount
  | randomWalk => drawByWalk g node amount

end Sampler

namespace Descent

/-- Compares a node with one random candidate. -/
def seedWith (comparison : Comparison) (node candidate : Nat) : Action Descent Unit := do
  Action.update fun d => { d with found := d.found + 1 }
  remember (.drawn node candidate)
  match ← compare comparison node candidate with
  | none => return ()
  | some similarity => discard (offer node candidate similarity)

/-- There is a list for a node. -/
def requireList (node : Nat) : Action Descent Unit := fun d =>
  if node < d.lists.size then (.ok (), d)
  else (.error (.crash (.indexOutOfRange node d.lists.size)), d)

/-- Compares every node of a range with `amount` random candidates. -/
def seedLists (sampler : Sampler) (g : CompressedGraph) (comparison : Comparison)
    (amount signal : Nat) (p : NodeRange) : Action Descent Unit :=
  overNodes signal p fun node => do
    let candidates ← draw (sampler.draw g node amount)
    requireList node
    Action.forEach candidates (seedWith comparison node)

end Descent

end NeighborGraph
