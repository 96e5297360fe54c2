import NeighborGraph.Descent.Run
import NeighborGraph.Proofs.Action.Delivers
import NeighborGraph.Proofs.Schedule.Ranges

/-!
# Slots follow nodes

A task finds the slot of a node by the distance from the first node of its range, in slots that were cut
off the maps with no regard to nodes.  Ranges that follow one another from node 0 on get slots that follow
one another from slot 0 on, so the slots of a range are those of its nodes (`Share.handOut_of_tiling`), and
the slot of a node is the one with its own number (`Share.places_own`).

The hand-out never fails then, and splitting all lists is running a task for every range
(`Descent.splitTiles_eq`).
-/

namespace NeighborGraph

open NeighborGraph.Action

theorem Slots.cut_of_le {s : Slots} {count : Nat} (enough : count ≤ s.size) :
    s.cut count = .ok (⟨s.base, count⟩, ⟨s.base + count, s.size - count⟩) := if_pos enough

theorem Slots.place_of_lt {s : Slots} {m : NodeMap} {index : Nat} (inside : index < s.size)
    (there : s.base + index < m.size) : s.place m index = .ok (s.base + index) :=
  if_pos ⟨inside, there⟩

namespace Share

/-- A range with the slots that have the numbers of its nodes. -/
def own (p : NodeRange) : Share := ⟨p, ⟨p.start, p.size⟩, ⟨p.start, p.size⟩, rfl, rfl⟩

theorem of_own (p : NodeRange) : of p ⟨p.start, p.size⟩ ⟨p.start, p.size⟩ = .ok (own p) := by
  rw [of, dif_pos rfl, dif_pos rfl, own]

theorem ranges_own (ps : List NodeRange) : (ps.map own).map range = ps := by
  rw [List.map_map]
  exact List.map_id ps

/-- Slots are cut off as the ranges are: the next ones start where those before them stop. -/
theorem handOut_of_tiling {first last size : Nat} {ps : List NodeRange}
    (tiling : NodeRange.Tiling first last ps) (enough : last ≤ first + size) :
    handOut ps ⟨first, size⟩ ⟨first, size⟩ = .ok (ps.map own) := by
  induction tiling generalizing size with
  | done => rfl
  | @next last p rest some behind ih =>
    have after := behind.first_le
    rw [NodeRange.stop] at after
    have fits : p.size ≤ size := by omega
    have others := @ih (size - p.size) (by rw [NodeRange.stop]; omega)
    rw [NodeRange.stop] at others
    rw [handOut, Slots.cut_of_le (s := ⟨p.start, size⟩) fits]
    show (of p _ _ >>= fun share => handOut rest _ _ >>= _) = _
    rw [of_own, others]
    rfl

/-- Maps with a slot for every node are handed out to the ranges of the nodes. -/
theorem handOut_tiles {n : Nat} {old new : NodeMap} (size : old.size = n) (size' : new.size = n)
    (concurrency minBatch : Nat) :
    handOut (NodeRange.tiles concurrency n minBatch) (.all old) (.all new)
      = .ok ((NodeRange.tiles concurrency n minBatch).map own) := by
  rw [Slots.all, Slots.all, size, size']
  exact handOut_of_tiling (NodeRange.tiling_tiles concurrency n minBatch)
    (Nat.le_of_eq (Nat.zero_add n).symm)

/-- At the distance of a node from the first one of its range is the slot of the node. -/
theorem places_own {p : NodeRange} {node : Nat} (member : node ∈ p.nodes) {old new : NodeMap}
    (there : node < old.size) (there' : node < new.size) :
    (own p).places old new node = .ok (node, node) := by
  obtain ⟨low, high⟩ := NodeRange.mem_nodes.mp member
  rw [NodeRange.stop] at high
  have inside : node - p.start < p.size := by omega
  have back : p.start + (node - p.start) = node := Nat.add_sub_cancel' low
  have found (m : NodeMap) (there : node < m.size) :
      Slots.place ⟨p.start, p.size⟩ m (node - p.start) = .ok node := by
    rw [Slots.place_of_lt inside (back.symm ▸ there), back]
  show (Slots.place _ old _ >>= fun _ => Slots.place _ new _ >>= _) = _
  rw [own, found old there, found new there']
  rfl

end Share

namespace Descent

/-- With a slot for every node, all lists are split in tasks on the ranges of the nodes. -/
theorem splitTiles_eq {n : Nat} {d : Descent} (old : d.old.size = n) (new : d.new.size = n)
    (concurrency minBatch sampleSize signal : Nat) :
    splitTiles (NodeRange.tiles concurrency n minBatch) sampleSize signal d
      = overTiles ((NodeRange.tiles concurrency n minBatch).map Share.own) signal
          (splitLists sampleSize) d := by
  have shares := Share.handOut_tiles old new concurrency minBatch
  show Action.bind (Action.check (Share.handOut _ _ _)) _ d = _
  rw [shares]
  rfl

end Descent

end NeighborGraph
