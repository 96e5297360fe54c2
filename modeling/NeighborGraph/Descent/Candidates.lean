import NeighborGraph.Descent.State

/-!
# Candidates of an iteration

Every iteration starts with a look at all lists.  `Descent.splitLists` tells the old neighbors of a
node from the new ones picked for this iteration, and `Descent.reverseMaps` finds, for every node,
the nodes that have it as an old or as a new candidate, in ascending order.

The task on a range of nodes has a `Share` of the maps it writes to: slots that no other task has.
Shares are cut off the maps one after the other, in the order of the ranges (`Share.handOut`), and a
task finds the slot of a node by its distance from the first node of the range.
-/

namespace NeighborGraph

/-! ### Slots of the maps -/

/-- Consecutive slots of a map: `size` of them, from `base` on. -/
structure Slots where
  base : Nat
  size : Nat
deriving DecidableEq, Repr

namespace Slots

/-- All slots of a map. -/
def all (m : NodeMap) : Slots := ⟨0, m.size⟩

/-- The first `count` slots, and the slots after them. -/
def cut (s : Slots) (count : Nat) : Checked (Slots × Slots) :=
  if count ≤ s.size then .ok (⟨s.base, count⟩, ⟨s.base + count, s.size - count⟩)
  else .error (.crash .cutPastEnd)

/-- Where in a map the slot with a given index is. -/
def place (s : Slots) (m : NodeMap) (index : Nat) : Checked Nat :=
  if index < s.size ∧ s.base + index < m.size then .ok (s.base + index)
  else .error (.crash (.indexOutOfRange index s.size))

end Slots

/-- A range of nodes, and slots for what its task finds: one of each map for every node. -/
structure Share where
  range : NodeRange
  old : Slots
  new : Slots
  old_size : old.size = range.size
  new_size : new.size = range.size

namespace Share

/-- A range with the slots given to it. -/
def of (p : NodeRange) (old new : Slots) : Checked Share :=
  if old_size : old.size = p.size then
    if new_size : new.size = p.size then .ok ⟨p, old, new, old_size, new_size⟩
    else .error (.crash (.unequal new.size p.size))
  else .error (.crash (.unequal old.size p.size))

/-- Hands out slots of two maps to ranges, one after the other. -/
def handOut : List NodeRange → (old new : Slots) → Checked (List Share)
  | [], _, _ => .ok []
  | p :: rest, old, new => do
    let (ownOld, old) ← old.cut p.size
    let (ownNew, new) ← new.cut p.size
    let share ← Share.of p ownOld ownNew
    return share :: (← handOut rest old new)

/-- Where in the two maps the slots of a node are. -/
def places (share : Share) (old new : NodeMap) (node : Nat) : Checked (Nat × Nat) := do
  let index := node - share.range.start
  return (← share.old.place old index, ← share.new.place new index)

end Share

namespace Descent

/-! ### Old and new candidates -/

/-- Keeps the parts of the list of a node, the candidates in the given places. -/
def keepParts (node : Nat) (places : Nat × Nat) (parts : NeighborList.Parts) (d : Descent) :
    Descent :=
  { d with
    lists := d.lists.setIfInBounds node parts.list
    old := d.old.setIfInBounds places.1 parts.old.toArray
    new := d.new.setIfInBounds places.2 parts.new.toArray }

/-- Splits the list of one node. -/
def splitList (sampleSize : Nat) (share : Share) (node : Nat) : Action Descent Unit := do
  match ← Action.read fun d => d.lists[node]? with
  | none =>
    let size ← Action.read fun d => d.lists.size
    Action.fail (.crash (.indexOutOfRange node size))
  | some list =>
    let places ← Action.read fun d => share.places d.old d.new node
    let places ← Action.check places
    let parts ← draw (list.split sampleSize)
    Action.update (keepParts node places parts)

/-- Splits the lists of a range of nodes. -/
def splitLists (sampleSize signal : Nat) (share : Share) : Action Descent Unit :=
  overNodes signal share.range (splitList sampleSize share)

end Descent

/-! ### Reverse candidates -/

namespace NodeMap

/-- Enters `node` for another node. -/
def enterFor (node target : Nat) : Action NodeMap Unit := fun m =>
  if target = node then (.error (.corruption (.selfCandidate node)), m)
  else if target < m.size then (.ok (), m.modify target (·.push node))
  else (.error (.crash (.indexOutOfRange target m.size)), m)

/-- Enters `node` for each of the given nodes, none of which may be `node` itself. -/
def enter (node : Nat) (targets : List Nat) : Action NodeMap Unit :=
  Action.forEach targets (enterFor node)

end NodeMap

namespace Descent

/-- Runs an action on a map that is taken out of the state and put back. -/
def overMap (take : Descent → NodeMap × Descent) (put : NodeMap → Descent → Descent)
    (m : Action NodeMap Unit) : Action Descent Unit := fun d =>
  match take d with
  | (map, d) =>
    match m map with
    | (r, map) => (r, put map d)

/-- Takes out the reverse map of the old candidates. -/
def takeReverseOld (d : Descent) : NodeMap × Descent := (d.reverseOld, { d with reverseOld := #[] })

/-- Takes out the reverse map of the new candidates. -/
def takeReverseNew (d : Descent) : NodeMap × Descent := (d.reverseNew, { d with reverseNew := #[] })

/-- Enters a node for all its candidates. -/
def reverseNode (node : Nat) : Action Descent Unit := do
  let old ← Action.read fun d => d.old.entries node
  let old ← Action.check old
  overMap takeReverseOld (fun reverseOld d => { d with reverseOld }) (NodeMap.enter node old)
  let new ← Action.read fun d => d.new.entries node
  let new ← Action.check new
  overMap takeReverseNew (fun reverseNew d => { d with reverseNew }) (NodeMap.enter node new)

/-- Drops the reverse candidates of an earlier iteration. -/
def clearReverse : Action Descent Unit := Action.update fun d =>
  { d with
    reverseOld := .empty d.reverseOld.size
    reverseNew := .empty d.reverseNew.size }

/-- Enters every node for all its candidates, looking at a signal from time to time, and reports
every `batch` nodes. -/
def reverseMaps (nodeCount batch signal : Nat) : Action Descent Unit :=
  Action.forEach (List.range nodeCount) fun node => do
    Tasks.poll signal node
    reverseNode node
    if (node + 1) % batch = 0 then report (.advanced batch)

end Descent

end NeighborGraph
