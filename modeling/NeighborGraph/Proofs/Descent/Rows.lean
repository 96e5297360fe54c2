import NeighborGraph.Descent.State

/-!
# Candidate maps, node by node

A candidate map is known once the entries of every node are (`NodeMap.row`).  `NodeMap.ofRows` is the map
with given entries, so that a change of a map can be written down as a change of its entries.
-/

namespace NeighborGraph.NodeMap

/-! ### Entries -/

/-- The entries of a node; a node that is not in the map has none. -/
def row (m : NodeMap) (v : Nat) : List Nat := (m[v]?.getD #[]).toList

theorem entries_eq {m : NodeMap} {v : Nat} (inside : v < m.size) : m.entries v = .ok (m.row v) := by
  rw [entries, row, Array.getElem?_eq_getElem inside]
  rfl

theorem row_eq_nil {m : NodeMap} {v : Nat} (outside : m.size ≤ v) : m.row v = [] := by
  rw [row, Array.getElem?_eq_none outside]
  rfl

theorem lt_of_mem_row {m : NodeMap} {v u : Nat} (member : u ∈ m.row v) : v < m.size := by
  refine Nat.not_le.mp fun outside => ?_
  rw [row_eq_nil outside] at member
  exact List.not_mem_nil member

theorem row_setIfInBounds_self {m : NodeMap} {v : Nat} (inside : v < m.size) (xs : List Nat) :
    row (m.setIfInBounds v xs.toArray) v = xs := by
  rw [row, Array.getElem?_setIfInBounds_self_of_lt inside]
  rfl

theorem row_setIfInBounds_ne {v w : Nat} (different : v ≠ w) (m : NodeMap) (xs : Array Nat) :
    row (m.setIfInBounds v xs) w = m.row w := by
  rw [row, Array.getElem?_setIfInBounds_ne different, row]

/-! ### Maps by their entries -/

/-- The map in which each of `n` nodes has the given entries. -/
def ofRows (n : Nat) (rows : Nat → List Nat) : NodeMap := Array.ofFn fun u : Fin n => (rows u).toArray

theorem size_ofRows (n : Nat) (rows : Nat → List Nat) : (ofRows n rows).size = n := Array.size_ofFn

theorem getElem?_ofRows (n : Nat) (rows : Nat → List Nat) (u : Nat) :
    (ofRows n rows)[u]? = if u < n then some (rows u).toArray else none := by
  rw [ofRows, Array.getElem?_ofFn]
  rfl

theorem row_ofRows (n : Nat) (rows : Nat → List Nat) (u : Nat) :
    (ofRows n rows).row u = if u < n then rows u else [] := by
  rw [row, getElem?_ofRows]
  split <;> rfl

theorem empty_eq_ofRows (n : Nat) : empty n = ofRows n fun _ => [] := by
  apply Array.ext_getElem?
  intro u
  rw [empty, Array.getElem?_replicate, getElem?_ofRows]

/-- One more entry of one node. -/
theorem modify_ofRows (n : Nat) (rows : Nat → List Nat) (target node : Nat) :
    (ofRows n rows).modify target (·.push node)
      = ofRows n fun u => if target = u then rows u ++ [node] else rows u := by
  apply Array.ext_getElem?
  intro u
  rw [Array.getElem?_modify, getElem?_ofRows, getElem?_ofRows]
  by_cases same : target = u
  · rw [if_pos same, if_pos same]
    split
    · rw [Option.map_some, List.push_toArray]
    · rfl
  · rw [if_neg same, if_neg same]

end NeighborGraph.NodeMap
