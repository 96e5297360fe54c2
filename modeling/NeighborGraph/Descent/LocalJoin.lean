import NeighborGraph.Descent.State
import NeighborGraph.Random.Sample

/-!
# Joining candidates

Two candidates of the same node may well be close to each other.  `Descent.joinLists` compares the
new candidates of every node with each other and with its old ones, and offers both nodes of a pair
to each other.  Candidates are the neighbors of the node and the nodes it is a neighbor of; of the
latter at most `sampleSize` are taken.

Besides, every node is compared with some random nodes.
-/

namespace NeighborGraph

namespace Descent

/-- The reverse candidate at a place. -/
def reverseAt (reverse : List Nat) (place : Nat) : Checked Nat :=
  match reverse[place]? with
  | none => .error (.crash (.indexOutOfRange place reverse.length))
  | some node => .ok node

/-- Up to `sampleSize` of the reverse candidates. -/
def pickReverse (sampleSize : Nat) (reverse : List Nat) : Random.Draw (List Nat) :=
  if reverse.length ≤ sampleSize then return reverse
  else do
    let places ← Random.sample reverse.length sampleSize
    Action.check (places.mapM (reverseAt reverse))

/-- Buffers that candidates are put into, and what an earlier use left behind in them. -/
structure Buffers where
  seen : List Nat := []
  out : Array Nat := #[]

namespace Buffers

/-- Empties the buffers. -/
def clear (_ : Buffers) : Buffers := {}

/-- Puts in a node that was not seen yet. -/
def enter (b : Buffers) (node : Nat) : Buffers :=
  if b.seen.contains node then b else { seen := node :: b.seen, out := b.out.push node }

end Buffers

/-- Puts candidates in both directions into buffers, each of them once. -/
def combineInto (forward reverse : List Nat) (sampleSize : Nat) (b : Buffers) :
    Random.Draw Buffers := do
  let b := forward.foldl Buffers.enter b.clear
  return (← pickReverse sampleSize reverse).foldl Buffers.enter b

/-- Candidates in both directions, each of them once. -/
def combine (forward reverse : List Nat) (sampleSize : Nat) : Random.Draw (List Nat) := do
  return (← combineInto forward reverse sampleSize {}).out.toList

/-- The pairs of candidates to compare: every new one with those after it and with the old ones. -/
def candidatePairs : (new old : List Nat) → List (Nat × Nat)
  | [], _ => []
  | a :: rest, old =>
    rest.map (fun b => (a, b)) ++ old.map (fun b => (a, b)) ++ candidatePairs rest old

/-- How candidates are joined. -/
structure JoinRule where
  comparison : Comparison
  sampleSize : Nat
  randomJoins : Nat
  perturbationRate : Float

/-- Offers a candidate and counts the offer if the list changed. -/
def offerCounted (owner candidate : Nat) (similarity : Float) : Action Descent Unit := do
  if ← offer owner candidate similarity then
    Action.update fun d => { d with updates := d.updates + 1 }

/-- Counts a pair. -/
def countPair : Action Descent Unit := Action.update fun d => { d with pairs := d.pairs + 1 }

/-- Compares two candidates and offers them to each other. -/
def joinPair (rule : JoinRule) (a b : Nat) : Action Descent Unit :=
  if a = b then pure ()
  else do
    countPair
    remember (.joined a b)
    match ← compare rule.comparison a b with
    | none => return ()
    | some similarity =>
      offerCounted a b similarity
      offerCounted b a similarity

/-- Whether a random node hears of the node it was drawn for. -/
def perturbs (rate : Float) : Action Descent Bool :=
  if 0.0 < rate then draw (Random.coin rate) else pure false

/-- Compares a node with a random other one. -/
def joinRandom (rule : JoinRule) (node : Nat) : Action Descent Unit := do
  let nodeCount ← Action.read fun d => d.lists.size
  let drawn ← draw (Random.below64 (nodeCount - 1))
  let other := if node ≤ drawn then drawn + 1 else drawn
  countPair
  match ← compare rule.comparison node other with
  | none => remember (.random node other false)
  | some similarity =>
    discard (offer node other similarity)
    let heard ← perturbs rule.perturbationRate
    remember (.random node other heard)
    if heard then discard (offer other node similarity)

/-- The candidates of a node in both directions, the new ones and the old ones. -/
def gather (sampleSize node : Nat) : Action Descent (List Nat × List Nat) := do
  let new ← Action.read fun d => d.new.entries node
  let reverseNew ← Action.read fun d => d.reverseNew.entries node
  let new ← draw (combine (← Action.check new) (← Action.check reverseNew) sampleSize)
  let old ← Action.read fun d => d.old.entries node
  let reverseOld ← Action.read fun d => d.reverseOld.entries node
  let old ← draw (combine (← Action.check old) (← Action.check reverseOld) sampleSize)
  return (new, old)

/-- Joins the candidates of one node, then the node with random ones. -/
def joinNode (rule : JoinRule) (node : Nat) : Action Descent Unit := do
  let (new, old) ← gather rule.sampleSize node
  Action.forEach (candidatePairs new old) fun (a, b) => joinPair rule a b
  Action.repeatTimes rule.randomJoins (joinRandom rule node)

/-- Joins the candidates of a range of nodes. -/
def joinLists (rule : JoinRule) (signal : Nat) (p : NodeRange) : Action Descent Unit :=
  overNodes signal p (joinNode rule)

end Descent

end NeighborGraph
