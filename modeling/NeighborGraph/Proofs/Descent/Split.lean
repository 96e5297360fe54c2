import NeighborGraph.Proofs.Action.Progress
import NeighborGraph.Proofs.Descent.Lists
import NeighborGraph.Proofs.Descent.Rows
import NeighborGraph.Proofs.Descent.Shares
import NeighborGraph.Proofs.Descent.Untouched
import NeighborGraph.Proofs.NeighborList.Split

/-!
# Splits of all lists

The lists are split range by range, each range with slots of its own in the maps of old and new candidates,
and these are the slots of its nodes (`Share.places_own`).  As the ranges follow one another, the phase is a
loop over the nodes (`Descent.ensures_overTiles_progress`): before the node `k`, the lists of the nodes
before it are split and all others are as they were (`Descent.Splitting`).  So nothing that an earlier
iteration left in the maps survives the phase.
-/

namespace NeighborGraph

open NeighborGraph.Action

namespace Descent

/-! ### Phases by nodes -/

section Progress

variable {progress : Nat → Descent → Prop} (aside : ∀ k, Aside (progress k))
include aside

theorem ensures_overNodes_progress {signal : Nat} {p : NodeRange} {f : Nat → Action Descent Unit}
    (each : ∀ k, p.start ≤ k → k < p.stop → (f k).Ensures (progress k) fun _ => progress (k + 1)) :
    (overNodes signal p f).Ensures (progress p.start) fun _ => progress p.stop := by
  refine ensures_bind (ensures_forEach_range' p.size fun k low high => ?_) fun _ =>
    (leaves_report (aside _) _).keeps fun known => known
  exact ensures_bind (Tasks.ensures_poll signal _) fun _ => each k low high

/-- Tasks on ranges that follow one another.  All seeds are drawn before the first task, and what the tasks
lead to has nothing to do with them. -/
theorem ensures_overTiles_progress {α : Type} {tiles : List α} {range : α → NodeRange}
    {first last signal : Nat} {task : Nat → α → Action Descent Unit}
    (tiling : NodeRange.Tiling first last (tiles.map range))
    (each : ∀ signal, ∀ a ∈ tiles,
      (task signal a).Ensures (progress (range a).start) fun _ => progress (range a).stop) :
    (overTiles tiles signal task).Ensures (progress first) fun _ => progress last := by
  refine ensures_bind (Tasks.ensures_child (aside first).ignoresSignals signal) fun below => ?_
  have drawn : (collect tiles fun _ => drawSeed).Ensures (progress first) fun _ => progress first :=
    ensures_collect fun _ _ => (leaves_drawSeed (aside first)).keeps fun known => known
  refine ensures_bind (drawn.and_yields (yields_collect tiles fun _ => drawSeed)) fun seeds => ?_
  refine ensures_of_fact fun length => ?_
  have firsts : (tiles.zip seeds).map Prod.fst = tiles := List.map_fst_zip (Nat.le_of_eq length.symm)
  have ranges : (tiles.zip seeds).map (range ∘ Prod.fst) = tiles.map range := by
    rw [← List.map_map, firsts]
  refine ensures_discard (Tasks.ensures_run_tiling (ranges.symm ▸ tiling) ?_ below)
  rintro ⟨a, seed⟩ paired
  refine ensures_bind ((leaves_reseed (aside _) seed).keeps fun known => known) fun _ => ?_
  exact each below a (List.of_mem_zip paired).1

end Progress

/-! ### Splits -/

/-- The lists of the nodes before `k` are split, and those of all other nodes are still to be. -/
structure Splitting (sampleSize : Nat) (before : Array NeighborList) (k : Nat)
    (lists : Array NeighborList) (old new : NodeMap) : Prop where
  size : lists.size = before.size
  oldSize : old.size = before.size
  newSize : new.size = before.size
  split : ∀ v l, v < k → before[v]? = some l → ∃ l', lists[v]? = some l'
    ∧ l.Divides sampleSize { old := old.row v, new := new.row v, list := l' }
  rest : ∀ v, k ≤ v → lists[v]? = before[v]?

variable {sampleSize k : Nat} {before : Array NeighborList}

theorem aside_splitting (sampleSize : Nat) (before : Array NeighborList) (k : Nat) :
    Aside fun d => Splitting sampleSize before k d.lists d.old d.new :=
  ⟨fun _ _ => rfl, fun _ _ => rfl, fun _ _ => rfl, fun _ _ => rfl, fun _ _ => rfl⟩

/-- One more list. -/
theorem Splitting.next {lists : Array NeighborList} {old new : NodeMap} {l : NeighborList}
    {parts : NeighborList.Parts} (h : Splitting sampleSize before k lists old new)
    (found : before[k]? = some l) (divides : l.Divides sampleSize parts) :
    Splitting sampleSize before (k + 1) (lists.setIfInBounds k parts.list)
      (old.setIfInBounds k parts.old.toArray) (new.setIfInBounds k parts.new.toArray) := by
  obtain ⟨inside, -⟩ := Array.getElem?_eq_some_iff.mp found
  refine ⟨Array.size_setIfInBounds.trans h.size, Array.size_setIfInBounds.trans h.oldSize,
    Array.size_setIfInBounds.trans h.newSize, fun v m below there => ?_, fun v above => ?_⟩
  · -- only the places of the node `k` change, whatever they held
    rcases Nat.lt_succ_iff_lt_or_eq.mp below with earlier | rfl
    · have different : k ≠ v := Nat.ne_of_gt earlier
      rw [Array.getElem?_setIfInBounds_ne different, NodeMap.row_setIfInBounds_ne different,
        NodeMap.row_setIfInBounds_ne different]
      exact h.split v m earlier there
    · obtain rfl := Option.some.inj (found.symm.trans there)
      refine ⟨parts.list, Array.getElem?_setIfInBounds_self_of_lt (h.size ▸ inside), ?_⟩
      rw [NodeMap.row_setIfInBounds_self (h.oldSize.symm ▸ inside),
        NodeMap.row_setIfInBounds_self (h.newSize.symm ▸ inside)]
      exact divides
  · rw [Array.getElem?_setIfInBounds_ne (Nat.ne_of_lt above)]
    exact h.rest v (Nat.le_of_succ_le above)

/-- The task on a range of nodes puts the candidates of each of them into the slots of the node. -/
theorem ensures_splitList (distinct : Each (fun _ l => l.ids.Nodup) before) {p : NodeRange}
    (member : k ∈ p.nodes) :
    (splitList sampleSize (.own p) k).Ensures
      (fun d => Splitting sampleSize before k d.lists d.old d.new)
      fun _ d => Splitting sampleSize before (k + 1) d.lists d.old d.new := by
  let here (d : Descent) : Prop := Splitting sampleSize before k d.lists d.old d.new
  have aside : Aside here := aside_splitting sampleSize before k
  refine ensures_bind (R := fun found d => here d ∧ before[k]? = found)
    (ensures_read fun d h => ⟨h, (h.rest k (Nat.le_refl k)).symm⟩) fun found => ?_
  refine ensures_of_fact fun found => ?_
  cases there : before[k]? with
  | none =>
    subst found
    rw [there]
    exact ensures_bind (R := fun _ _ => True) (ensures_read fun _ _ => trivial) fun _ => ensures_fail
  | some l =>
    subst found
    rw [there]
    obtain ⟨inside, -⟩ := Array.getElem?_eq_some_iff.mp there
    refine ensures_bind (R := fun places d => here d ∧ places = .ok (k, k)) (ensures_read fun d h =>
      ⟨h, Share.places_own member (h.oldSize.symm ▸ inside) (h.newSize.symm ▸ inside)⟩) fun places => ?_
    refine ensures_of_fact fun own => ?_
    subst own
    refine ensures_bind (R := fun places d => here d ∧ places = (k, k))
      (ensures_check fun places own _ h => ⟨h, (Except.ok.inj own).symm⟩) fun places => ?_
    refine ensures_of_fact fun own => ?_
    subst own
    have drawn : (draw (l.split sampleSize)).Ensures here fun parts d =>
        here d ∧ l.Divides sampleSize parts :=
      ensures_zoom (NeighborList.split_divides (distinct k l there) sampleSize)
        fun d stream parts h divides => ⟨(aside.stream d stream).mpr h, divides⟩
    refine ensures_bind drawn fun parts => ensures_update fun d ⟨h, divides⟩ => ?_
    exact h.next there divides

/-- The phase splits all lists. -/
theorem ensures_splitLists (distinct : Each (fun _ l => l.ids.Nodup) before) {name : String}
    (concurrency minBatch sampleSize signal : Nat) :
    (phase name (splitTiles (NodeRange.tiles concurrency before.size minBatch) sampleSize
        signal)).Ensures
      (fun d => Splitting sampleSize before 0 d.lists d.old d.new)
      fun _ d => Splitting sampleSize before before.size d.lists d.old d.new := by
  have aside := aside_splitting sampleSize before
  let tiles := NodeRange.tiles concurrency before.size minBatch
  have tiling : NodeRange.Tiling 0 before.size ((tiles.map Share.own).map Share.range) := by
    rw [Share.ranges_own]
    exact NodeRange.tiling_tiles concurrency before.size minBatch
  refine ensures_phase_of_aside (aside 0) (fun _ => aside before.size) fun d a d' start run => ?_
  rw [splitTiles_eq start.oldSize start.newSize] at run
  refine ensures_overTiles_progress aside tiling (fun signal share given => ?_) d a d' start run
  obtain ⟨p, -, rfl⟩ := List.mem_map.mp given
  refine ensures_overNodes_progress aside fun k low high => ?_
  exact ensures_splitList distinct (NodeRange.mem_nodes.mpr ⟨low, high⟩)

/-- A phase of splits that succeeds, from any lists of distinct nodes, any maps of the right length and any
streams.  The slots cut off the maps go to the ranges in order, and the slot that a task finds for a node, by
its distance from the first node of the range, is the node's own.  Every list is divided into its old
neighbors and some of its new ones, which are in the slots of its own node.  So a neighbor that stays in a
list, over whatever offers and splits, is picked at most once, and it is among the old ones of every later
split. -/
theorem splits_partition {n : Nat} {d d' : Descent} (lists : d.lists.size = n)
    (old : d.old.size = n) (new : d.new.size = n) (distinct : Each (fun _ l => l.ids.Nodup) d.lists)
    {concurrency minBatch sampleSize signal : Nat}
    (run : phase "Split old and new neighbors"
      (splitTiles (NodeRange.tiles concurrency n minBatch) sampleSize signal) d = (.ok (), d')) :
    (d'.lists.size = n ∧ d'.old.size = n ∧ d'.new.size = n)
      ∧ (∃ shares, Share.handOut (NodeRange.tiles concurrency n minBatch) (.all d.old) (.all d.new)
          = .ok shares
        ∧ shares.map (·.range) = NodeRange.tiles concurrency n minBatch
        ∧ ∀ share ∈ shares, ∀ v ∈ share.range.nodes, share.places d.old d.new v = .ok (v, v))
      ∧ (∀ (v : Nat) (l : NeighborList), d.lists[v]? = some l → ∃ l', d'.lists[v]? = some l'
        ∧ l.Divides sampleSize { old := d'.old.row v, new := d'.new.row v, list := l' })
      ∧ ∀ id (l : NeighborList) parts, l.ids.Nodup → l.Stays id parts →
        parts.countP (fun p => decide (id ∈ p.new)) ≤ 1
          ∧ parts.Pairwise fun p q => id ∈ p.new → id ∈ q.old := by
  subst lists
  have start : Splitting sampleSize d.lists 0 d.lists d.old d.new :=
    ⟨rfl, old, new, fun v l none => absurd none (Nat.not_lt_zero v), fun v _ => rfl⟩
  have ends := ensures_splitLists distinct concurrency minBatch sampleSize signal d () d' start run
  refine ⟨⟨ends.size, ends.oldSize, ends.newSize⟩, ?_, fun v l found => ?_, ?_⟩
  · refine ⟨_, Share.handOut_tiles old new concurrency minBatch, Share.ranges_own _, ?_⟩
    intro share given v member
    obtain ⟨p, tile, rfl⟩ := List.mem_map.mp given
    have inside := NodeRange.lt_of_mem_tiles tile member
    exact Share.places_own member (old.symm ▸ inside) (new.symm ▸ inside)
  · obtain ⟨inside, -⟩ := Array.getElem?_eq_some_iff.mp found
    exact ends.split v l inside found
  · exact fun id l parts distinct stays => stays.picked distinct

/-- A list of three nodes, one of them picked before. -/
def threeNeighbors : NeighborList where
  capacity := 3
  entries := [⟨2, 0.9, true⟩, ⟨3, 0.8, false⟩, ⟨1, 0.5, false⟩]

/-- Two lists, and what an earlier iteration left in the maps. -/
def twoLists : Descent where
  signals := {}
  lists := #[threeNeighbors, { capacity := 3, entries := [⟨0, 0.5, false⟩] }]
  old := #[#[5], #[]]
  new := #[#[], #[6, 7]]
  reverseOld := .empty 2
  reverseNew := .empty 2

theorem splits_partition_of_two :
    (∃ d', phase "Split old and new neighbors" (splitTiles (NodeRange.tiles 2 2 1) 1 0) twoLists
          = (.ok (), d')
        ∧ d'.old.row 0 = [2] ∧ (d'.new.row 0).length = 1 ∧ d'.new.row 0 ⊆ [3, 1]
        ∧ d'.old.row 1 = [] ∧ d'.new.row 1 ⊆ [0])
      ∧ ∃ p q, threeNeighbors.Stays 3 [p, q] ∧ 3 ∈ p.new ∧ 3 ∈ q.old := by
  have succeeds : (phase "Split old and new neighbors"
      (splitTiles (NodeRange.tiles 2 2 1) 1 0) twoLists).1.isOk = true := by decide +kernel
  have distinct : Each (fun _ l => l.ids.Nodup) twoLists.lists := by
    intro v l found
    have all : ∀ l ∈ twoLists.lists.toList, l.ids.Nodup := by decide
    exact all l (Array.mem_toList_iff.mpr (Array.mem_of_getElem? found))
  cases run : phase "Split old and new neighbors" (splitTiles (NodeRange.tiles 2 2 1) 1 0)
      twoLists with
  | mk r d' =>
    cases r with
    | error fault =>
      rw [run] at succeeds
      exact absurd succeeds Bool.noConfusion
    | ok =>
      obtain ⟨-, -, split, staying⟩ := splits_partition rfl rfl rfl distinct run
      obtain ⟨_, -, first⟩ := split 0 _ rfl
      obtain ⟨_, -, second⟩ := split 1 _ rfl
      refine ⟨⟨d', rfl, first.old, first.length, first.new, second.old, second.new⟩, ?_⟩
      let p : NeighborList.Parts := ⟨[2], [3, 1], threeNeighbors.check [3, 1]⟩
      let q : NeighborList.Parts := ⟨[2, 3, 1], [], p.list.check []⟩
      have picks : threeNeighbors.split 2 default = (.ok p, default) := rfl
      have again : p.list.split 2 default = (.ok q, default) := rfl
      have stays : threeNeighbors.Stays 3 [p, q] :=
        .splits (by decide) 2 picks (.splits (by decide) 2 again
          (.offered (by decide) 0 4 0.6 (.rests (by decide +kernel))))
      have new : 3 ∈ p.new := by decide
      obtain ⟨-, ordered⟩ := staying 3 threeNeighbors [p, q] (by decide) stays
      exact ⟨p, q, stays, new, (List.pairwise_cons.mp ordered).1 q (List.mem_singleton.mpr rfl) new⟩

end Descent

end NeighborGraph
