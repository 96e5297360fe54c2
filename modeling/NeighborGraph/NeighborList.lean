import NeighborGraph.Random.Draw

/-!
# Neighbor lists — the best neighbors of one node

A `NeighborList` keeps up to `capacity` neighbors, the best one first: a more similar neighbor comes
before a less similar one, and of two equally similar ones the smaller number comes first.

* `NeighborList.add` — offers a candidate; a full list gives up its last neighbor for a better one;
* `NeighborList.split` — tells the neighbors that were compared with others from the new ones, and
  picks the new ones to be compared next;
* `NeighborList.filter` — drops neighbors that are not similar enough.
-/

namespace NeighborGraph

/-- A neighbor of some node. -/
structure Neighbor where
  id : Nat
  similarity : Float
  /-- Whether it was picked for comparison. -/
  checked : Bool := false
deriving Repr, Inhabited

/-- Whether one neighbor comes before another. -/
def Neighbor.precedes (x y : Neighbor) : Bool :=
  y.similarity < x.similarity || (!decide (x.similarity < y.similarity) && x.id < y.id)

/-- The best neighbors of one node, best first. -/
structure NeighborList where
  capacity : Nat
  entries : List Neighbor := []
deriving Repr, Inhabited

namespace NeighborList

/-- The numbers of the neighbors. -/
def ids (l : NeighborList) : List Nat := l.entries.map (·.id)

/-- Whether a node is among the neighbors. -/
def contains (l : NeighborList) (id : Nat) : Bool := l.entries.any (·.id == id)

/-- Similarity of the last neighbor. -/
def worst (l : NeighborList) : Option Float := l.entries.getLast?.map (·.similarity)

/-! ### Offers -/

/-- Whether a candidate has no place in the list of `owner`, however similar it is. -/
def refuses (l : NeighborList) (owner candidate : Nat) (similarity : Float) : Bool :=
  candidate == owner || l.capacity == 0 || similarity.isNaN || l.contains candidate

/-- Puts a neighbor in its place. -/
def place (x : Neighbor) : List Neighbor → List Neighbor
  | [] => [x]
  | y :: rest => if y.precedes x then y :: place x rest else x :: y :: rest

/-- Offers a candidate to the list of `owner`; also whether the list changed.  A full list takes
only what comes before its last neighbor, which then leaves. -/
def add (l : NeighborList) (owner candidate : Nat) (similarity : Float) : Bool × NeighborList :=
  if l.refuses owner candidate similarity then (false, l)
  else
    let x : Neighbor := { id := candidate, similarity }
    if l.entries.length < l.capacity then (true, { l with entries := place x l.entries })
    else if l.entries.all (·.precedes x) then (false, l)
    else (true, { l with entries := place x l.entries.dropLast })

/-! ### Old and new neighbors -/

/-- The neighbors picked before, the new ones picked now, and the list that remembers it. -/
structure Parts where
  old : List Nat
  new : List Nat
  list : NeighborList

/-- The neighbors picked before. -/
def checkedIds (l : NeighborList) : List Nat := (l.entries.filter (·.checked)).map (·.id)

/-- The neighbors not picked yet. -/
def uncheckedIds (l : NeighborList) : List Nat := (l.entries.filter (!·.checked)).map (·.id)

/-- The list with the given neighbors picked. -/
def check (l : NeighborList) (picked : List Nat) : NeighborList :=
  { l with entries := l.entries.map fun x =>
      if !x.checked && picked.contains x.id then { x with checked := true } else x }

/-- Some of the given nodes, in random order if not all are picked. -/
def pick (amount : Nat) (ids : List Nat) : Random.Draw (List Nat) :=
  if amount < ids.length then do
    return (← Random.shuffle ids.toArray).toList.take amount
  else return ids

/-- Picks up to `sampleSize` of the new neighbors. -/
def split (l : NeighborList) (sampleSize : Nat) : Random.Draw Parts := do
  let new ← pick sampleSize l.uncheckedIds
  return { old := l.checkedIds, new, list := l.check new }

/-! ### Cutting off -/

/-- Drops every neighbor that is less similar than `cutoff`. -/
def filter (l : NeighborList) (cutoff : Float) : NeighborList :=
  { l with entries := l.entries.filter fun x => decide (cutoff ≤ x.similarity) }

end NeighborList

end NeighborGraph
