import NeighborGraph.Binary64
import NeighborGraph.Fault
import NeighborGraph.Runs

/-!
# Aggregation — parallel relationships before they are encoded

Several relationships from one node to the same target are *parallel*.  Before a list is encoded
its targets are sorted, and an `Aggregation` says whether parallel ones are reduced to one and what
becomes of their properties.

* `Aggregation.reduce` — targets alone;
* `Aggregation.reducePairs` — targets with a property each.  The sort is stable, so parallel
  relationships are folded in the order in which they were added;
* `Aggregation.reducePaired` — the same for targets and properties in two lists, which the caller
  promises to be equally long.
-/

namespace NeighborGraph

/-- What becomes of parallel relationships. -/
inductive Aggregation
  | standard
  | none
  | single
  | sum
  | min
  | max
  | count
deriving DecidableEq, Repr, Inhabited

namespace Aggregation

/-- The concrete aggregation; the standard one keeps every relationship. -/
def resolve : Aggregation → Aggregation
  | standard => none
  | other => other

/-- Whether parallel relationships are reduced to one. -/
def deduplicates (a : Aggregation) : Bool := a.resolve != none

/-- The property a first relationship starts with. -/
def start (a : Aggregation) (property : Binary64) : Binary64 :=
  match a.resolve with
  | count => Binary64.one
  | _ => property

/-- The property after one more parallel relationship. -/
def merge (a : Aggregation) (running next : Binary64) : Binary64 :=
  match a.resolve with
  | sum => running.add next
  | min => running.min next
  | max => running.max next
  | count => running.add Binary64.one
  | _ => running

/-- Targets in ascending order, reduced as the aggregation says. -/
def reduce (a : Aggregation) (targets : List UInt64) : List UInt64 :=
  let sorted := targets.mergeSort fun t u => decide (t ≤ u)
  if a.deduplicates then dropRepeats sorted else sorted

/-- Folds the run of `target`, whose property so far is `running`, and the runs after it. -/
def foldRuns (a : Aggregation) (target : UInt64) (running : Binary64) :
    List (UInt64 × Binary64) → List (UInt64 × Binary64)
  | [] => [(target, running)]
  | (next, property) :: rest =>
    if next = target then foldRuns a target (a.merge running property) rest
    else (target, running) :: foldRuns a next (a.start property) rest

/-- Reduces each run of equal targets to one pair. -/
def collapse (a : Aggregation) : List (UInt64 × Binary64) → List (UInt64 × Binary64)
  | [] => []
  | (target, property) :: rest => foldRuns a target (a.start property) rest

/-- Pairs in ascending order of their targets, reduced as the aggregation says. -/
def reducePairs (a : Aggregation) (pairs : List (UInt64 × Binary64)) : List (UInt64 × Binary64) :=
  let sorted := pairs.mergeSort fun p q => decide (p.1 ≤ q.1)
  if a.deduplicates then a.collapse sorted else sorted

/-- Targets and their properties, paired by position and reduced as the aggregation says. -/
def reducePaired (a : Aggregation) (targets : List UInt64) (properties : List Binary64) :
    Checked (List (UInt64 × Binary64)) :=
  if targets.length = properties.length then .ok (a.reducePairs (targets.zip properties))
  else .error (.crash (.unequal targets.length properties.length))

end Aggregation

end NeighborGraph
