import Mathlib.Data.List.Dedup
import NeighborGraph.Proofs.NeighborList.Valid

/-!
# Neighbor lists hold the best of what was offered

A list sees its candidates one by one and forgets those it gives up.  `NeighborList.Best` is the
invariant that nothing is lost by that: every neighbor was offered with its similarity, and a node
that was offered with a number is in the list, unless the list is full and all its neighbors precede
that node.  Since a node is always offered with the same similarity, one that was given up never
comes back, and one that came back would find itself in the list.

`ranking` is what the list stands for: all offered nodes in order.  A list with the invariant is the
front of the ranking (`scores_of_best`).
-/

namespace NeighborGraph

/-- A node and its similarity, which is a number. -/
@[ext]
structure Scored where
  node : Nat
  similarity : Float
  number : similarity.isNaN = false

namespace Scored

/-- Whether one node comes before another: a more similar one, or of equally similar ones the one
with the smaller number. -/
def before (p q : Scored) : Bool :=
  q.similarity < p.similarity || (!decide (p.similarity < q.similarity) && p.node < q.node)

/-- A node with its similarity, if that is a number. -/
def of? (similarity : Nat → Option Float) (node : Nat) : Option Scored :=
  match similarity node with
  | none => none
  | some s => if number : s.isNaN = false then some ⟨node, s, number⟩ else none

/-- A node and its similarity as a neighbor. -/
def neighbor (p : Scored) : Neighbor := { id := p.node, similarity := p.similarity }

theorem before_iff (p q : Scored) :
    p.before q = true ↔ p.neighbor.rank < q.neighbor.rank :=
  Neighbor.precedes_iff (x := p.neighbor) (y := q.neighbor) p.number q.number

theorem of?_eq_some {similarity : Nat → Option Float} {node : Nat} {p : Scored} :
    of? similarity node = some p ↔ p.node = node ∧ similarity node = some p.similarity := by
  rw [of?]
  cases value : similarity node with
  | none => simp
  | some s =>
    by_cases number : s.isNaN = false
    · simp only [dif_pos number, Option.some.injEq]
      constructor
      · rintro rfl
        exact ⟨rfl, rfl⟩
      · rintro ⟨same, rfl⟩
        exact Scored.ext same.symm rfl
    · simp only [dif_neg number, Option.some.injEq]
      refine ⟨fun none => absurd none (by simp), ?_⟩
      rintro ⟨-, rfl⟩
      exact absurd p.number number

end Scored

/-- The distinct candidates with a number as their similarity, best first. -/
def ranking (similarity : Nat → Option Float) (candidates : List Nat) : List Scored :=
  (candidates.dedup.filterMap (Scored.of? similarity)).mergeSort fun p q => !q.before p

theorem mem_ranking {similarity : Nat → Option Float} {candidates : List Nat} {p : Scored} :
    p ∈ ranking similarity candidates
      ↔ p.node ∈ candidates ∧ similarity p.node = some p.similarity := by
  rw [ranking, List.mem_mergeSort, List.mem_filterMap]
  constructor
  · rintro ⟨node, member, found⟩
    obtain ⟨rfl, value⟩ := Scored.of?_eq_some.mp found
    exact ⟨List.mem_dedup.mp member, value⟩
  · rintro ⟨member, value⟩
    exact ⟨p.node, List.mem_dedup.mpr member, Scored.of?_eq_some.mpr ⟨rfl, value⟩⟩

/-- A ranking is strictly in order. -/
theorem ranking_pairwise (similarity : Nat → Option Float) (candidates : List Nat) :
    (ranking similarity candidates).Pairwise fun p q => p.before q = true := by
  have le_iff (p q : Scored) : (!q.before p) = true ↔ p.neighbor.rank ≤ q.neighbor.rank := by
    rw [Bool.not_eq_true', ← Bool.not_eq_true, Scored.before_iff, not_lt]
  have sorted : (ranking similarity candidates).Pairwise fun p q => (!q.before p) = true := by
    refine List.pairwise_mergeSort ?_ ?_ _
    · intro p q r h h'
      rw [le_iff] at h h' ⊢
      exact le_trans h h'
    · intro p q
      rw [Bool.or_eq_true, le_iff, le_iff]
      exact le_total _ _
  have distinct : (ranking similarity candidates).Pairwise fun p q => p.node ≠ q.node := by
    have nodes : (candidates.dedup.filterMap (Scored.of? similarity)).Pairwise
        fun p q => p.node ≠ q.node := by
      refine List.pairwise_filterMap.mpr ((List.nodup_dedup candidates).imp ?_)
      intro a b different p hp q hq same
      rw [(Scored.of?_eq_some.mp hp).1, (Scored.of?_eq_some.mp hq).1] at same
      exact different same
    exact nodes.perm (List.mergeSort_perm _ _).symm fun h => h.symm
  refine (sorted.and distinct).imp ?_
  intro p q h
  rw [Scored.before_iff]
  refine lt_of_le_of_ne ((le_iff p q).mp h.1) ?_
  intro same
  exact h.2 (congrArg (fun place => (ofLex place).2) same)

namespace NeighborList

/-- The neighbors of a list and their similarities. -/
def scores (l : NeighborList) : List (Nat × Float) := l.entries.map fun x => (x.id, x.similarity)

/-- The list holds the best of the offered nodes. -/
structure Best (similarity : Nat → Option Float) (offered : Nat → Prop) (l : NeighborList) :
    Prop where
  known : ∀ x ∈ l.entries, offered x.id ∧ similarity x.id = some x.similarity
  kept : ∀ node s, offered node → similarity node = some s → s.isNaN = false →
    node ∈ l.ids
      ∨ (l.entries.length = l.capacity
          ∧ ∀ x ∈ l.entries, x.precedes { id := node, similarity := s } = true)

variable {similarity : Nat → Option Float} {offered : Nat → Prop} {l : NeighborList} {owner : Nat}

theorem best_empty (similarity : Nat → Option Float) (capacity : Nat) :
    Best similarity (fun _ => False) { capacity } :=
  ⟨fun _ member => absurd member List.not_mem_nil, fun _ _ none => none.elim⟩

/-- Only offers with a number count. -/
theorem Best.widen {offered' : Nat → Prop} (h : Best similarity offered l)
    (wider : ∀ node, offered node → offered' node)
    (nothing : ∀ node s, offered' node → similarity node = some s → s.isNaN = false →
      offered node) : Best similarity offered' l := by
  refine ⟨?_, ?_⟩
  · intro x member
    obtain ⟨before, value⟩ := h.known x member
    exact ⟨wider x.id before, value⟩
  · intro node s now value number
    exact h.kept node s (nothing node s now value number) value number

/-! ### Offers -/

/-- A full valid list has a last neighbor; what does not come after all neighbors precedes it. -/
theorem last_of_full (valid : l.Valid owner) {x : Neighbor} (number : x.IsNumber)
    (new : x.id ∉ l.ids) (early : ¬l.entries.all (·.precedes x) = true) :
    ∃ last, l.entries = l.entries.dropLast ++ [last] ∧ x.precedes last = true
      ∧ ∀ y ∈ l.entries.dropLast, y.precedes last = true := by
  have some : l.entries ≠ [] := by
    intro none
    rw [none] at early
    exact early rfl
  have split : l.entries = l.entries.dropLast ++ [l.entries.getLast some] :=
    (List.dropLast_concat_getLast some).symm
  have member := List.getLast_mem some
  have ordered := valid.ordered
  rw [split] at ordered
  have front : ∀ y ∈ l.entries.dropLast, y.precedes (l.entries.getLast some) = true := fun y hy =>
    (List.pairwise_append.mp ordered).2.2 y hy _ (List.mem_singleton.mpr rfl)
  have different : (l.entries.getLast some).id ≠ x.id := fun same =>
    new (same ▸ List.mem_map_of_mem member)
  refine ⟨_, split, ?_, front⟩
  apply Neighbor.precedes_of_not (valid.numbers _ member) number different
  -- if the last neighbor preceded the candidate, all would
  intro late
  apply early
  rw [List.all_eq_true]
  intro y hy
  rw [split] at hy
  rcases List.mem_append.mp hy with hy | hy
  · exact Neighbor.precedes_trans (valid.numbers y ((List.dropLast_sublist _).subset hy))
      (valid.numbers _ member) number (front y hy) late
  · rw [List.mem_singleton.mp hy]
    exact late

/-- A candidate that finds its place among known neighbors is known, too. -/
theorem known_place (h : Best similarity offered l) {candidate : Nat} {s : Float}
    (value : similarity candidate = some s) {entries : List Neighbor}
    (part : entries.Sublist l.entries) :
    ∀ x ∈ place { id := candidate, similarity := s } entries,
      (x.id = candidate ∨ offered x.id) ∧ similarity x.id = some x.similarity := by
  intro x member
  rcases mem_place.mp member with rfl | member
  · exact ⟨.inl rfl, value⟩
  · obtain ⟨before, score⟩ := h.known x (part.subset member)
    exact ⟨.inr before, score⟩

section Offer

variable (h : Best similarity offered l) {candidate : Nat} {s : Float}
  (value : similarity candidate = some s)
include h value

/-- It is enough to say where the candidate is, if the list stays as it is. -/
theorem best_same
    (there : candidate ∈ l.ids
      ∨ (l.entries.length = l.capacity
        ∧ ∀ x ∈ l.entries, x.precedes { id := candidate, similarity := s } = true)) :
    Best similarity (fun node => node = candidate ∨ offered node) l := by
  refine ⟨fun x member => ⟨.inr (h.known x member).1, (h.known x member).2⟩, ?_⟩
  rintro node s' (rfl | before) value' number'
  · obtain rfl : s = s' := Option.some.inj (value.symm.trans value')
    exact there
  · exact h.kept node s' before value' number'

/-- What is refused without a look at its similarity is in the list already, or the list has no
place at all. -/
theorem best_refused (valid : l.Valid owner) (number : s.isNaN = false) (other : candidate ≠ owner)
    (refused : l.refuses owner candidate s = true) :
    Best similarity (fun node => node = candidate ∨ offered node) l := by
  refine best_same h value ?_
  by_cases inside : candidate ∈ l.ids
  · exact .inl inside
  · have absent : l.contains candidate = false := by
      rw [contains, List.any_eq_false]
      intro x member same
      exact inside (List.mem_map.mpr ⟨x, member, beq_iff_eq.mp same⟩)
    have none : l.capacity = 0 := by
      by_contra some
      rw [refuses, absent, number] at refused
      simp [other, some] at refused
    have bounded := valid.bounded
    have empty : l.entries = [] := List.length_eq_zero_iff.mp (by omega)
    refine .inr ⟨?_, ?_⟩
    · rw [empty, none]
      rfl
    · rw [empty]
      exact fun x member => absurd member List.not_mem_nil

/-- A list with room for one more held everything offered so far. -/
theorem best_room (room : l.entries.length < l.capacity) :
    Best similarity (fun node => node = candidate ∨ offered node)
      { l with entries := place { id := candidate, similarity := s } l.entries } := by
  refine ⟨known_place h value (List.Sublist.refl _), ?_⟩
  intro node s' now value' number'
  refine .inl ?_
  have perm := (perm_place { id := candidate, similarity := s } l.entries).map (·.id)
  rw [ids, perm.mem_iff]
  rcases now with rfl | before
  · exact List.mem_cons_self
  · rcases h.kept node s' before value' number' with inside | ⟨full, -⟩
    · exact List.mem_cons_of_mem _ inside
    · exact absurd full (Nat.ne_of_lt room)

/-- The candidate takes the place of the last neighbor.  Whatever comes after the neighbor that
left, or is that neighbor, comes after all that are there now. -/
theorem best_replaced (valid : l.Valid owner) (number : s.isNaN = false)
    (taken : ¬l.refuses owner candidate s = true) (full : ¬l.entries.length < l.capacity)
    (early : ¬l.entries.all (·.precedes { id := candidate, similarity := s }) = true) :
    Best similarity (fun node => node = candidate ∨ offered node)
      { l with entries := place { id := candidate, similarity := s } l.entries.dropLast } := by
  obtain ⟨-, -, -, new⟩ := of_not_refuses taken
  have numberX : Neighbor.IsNumber { id := candidate, similarity := s } := number
  obtain ⟨last, split, better, front⟩ := last_of_full valid numberX new early
  have bounded := valid.bounded
  have memberLast : last ∈ l.entries := by
    rw [split]
    exact List.mem_append_right _ (List.mem_singleton.mpr rfl)
  have perm := (perm_place { id := candidate, similarity := s } l.entries.dropLast).map (·.id)
  have length : (place { id := candidate, similarity := s } l.entries.dropLast).length
      = l.capacity := by
    have total := congrArg List.length split
    rw [List.length_append, List.length_singleton] at total
    rw [length_place]
    omega
  have ahead : ∀ x ∈ place { id := candidate, similarity := s } l.entries.dropLast,
      x.IsNumber ∧ x.precedes last = true := by
    intro x member
    rcases mem_place.mp member with rfl | member
    · exact ⟨number, better⟩
    · exact ⟨valid.numbers x ((List.dropLast_sublist _).subset member), front x member⟩
  refine ⟨known_place h value (List.dropLast_sublist _), ?_⟩
  intro node s' now value' number'
  rw [ids, perm.mem_iff]
  rcases now with rfl | before
  · exact .inl List.mem_cons_self
  · rcases h.kept node s' before value' number' with inside | ⟨-, late⟩
    · rw [ids, split, List.map_append] at inside
      rcases List.mem_append.mp inside with inside | left
      · exact .inl (List.mem_cons_of_mem _ inside)
      · -- the node itself was given up
        refine .inr ⟨length, ?_⟩
        obtain rfl : node = last.id := List.mem_singleton.mp left
        obtain rfl : last.similarity = s' :=
          Option.some.inj ((h.known last memberLast).2.symm.trans value')
        intro x member
        have same : x.precedes { id := last.id, similarity := last.similarity }
            = x.precedes last := by
          rw [Neighbor.precedes, Neighbor.precedes]
        rw [same]
        exact (ahead x member).2
    · refine .inr ⟨length, ?_⟩
      intro x member
      obtain ⟨numberX', before'⟩ := ahead x member
      exact Neighbor.precedes_trans numberX' (valid.numbers last memberLast) number' before'
        (late last memberLast)

/-- The list holds the best also of what was offered now. -/
theorem best_add (valid : l.Valid owner) (number : s.isNaN = false) (other : candidate ≠ owner) :
    Best similarity (fun node => node = candidate ∨ offered node)
      (l.add owner candidate s).2 := by
  rcases add_cases l owner candidate s with
    ⟨refused, same⟩ | ⟨taken, ⟨room, placed⟩ | ⟨full, late, same⟩ | ⟨full, early, placed⟩⟩
  · rw [same]
    exact best_refused h value valid number other refused
  · rw [placed]
    exact best_room h value room
  · rw [same]
    have bounded := valid.bounded
    refine best_same h value (.inr ⟨by omega, ?_⟩)
    rw [List.all_eq_true] at late
    exact late
  · rw [placed]
    exact best_replaced h value valid number taken full early

end Offer

/-- Picking changes neither neighbors nor similarities. -/
theorem best_check (h : Best similarity offered l) (picked : List Nat) :
    Best similarity offered (l.check picked) := by
  have entries : (l.check picked).entries = l.entries.map (marked picked) := rfl
  refine ⟨?_, ?_⟩
  · intro y member
    obtain ⟨x, inside, rfl⟩ := List.mem_map.mp (entries ▸ member)
    rw [marked_id, marked_similarity]
    exact h.known x inside
  · intro node s before value number
    rw [ids_check, entries, List.length_map]
    rcases h.kept node s before value number with inside | ⟨full, late⟩
    · exact .inl inside
    · refine .inr ⟨full, ?_⟩
      intro y member
      obtain ⟨x, inside, rfl⟩ := List.mem_map.mp member
      have late := late x inside
      rw [Neighbor.precedes] at late ⊢
      rw [marked_id, marked_similarity]
      exact late

/-! ### The front of the ranking -/

/-- A part of an ordered list that misses only what comes after all of it is its front. -/
theorem eq_take_of_kept {α : Type} {before : α → α → Prop} {front all : List α} {capacity : Nat}
    (asymm : ∀ a b, before a b → ¬before b a) (ordered : front.Pairwise before)
    (orderedAll : all.Pairwise before) (part : ∀ a ∈ front, a ∈ all)
    (bounded : front.length ≤ capacity)
    (kept : ∀ a ∈ all, a ∈ front ∨ (front.length = capacity ∧ ∀ b ∈ front, before b a)) :
    front = all.take capacity := by
  induction front generalizing all capacity with
  | nil =>
    cases all with
    | nil => rw [List.take_nil]
    | cons a all =>
      rcases kept a List.mem_cons_self with inside | ⟨full, -⟩
      · exact absurd inside List.not_mem_nil
      · rw [← full]
        rfl
  | cons first front ih =>
    obtain ⟨least, ordered⟩ := List.pairwise_cons.mp ordered
    cases all with
    | nil => exact absurd (part first List.mem_cons_self) List.not_mem_nil
    | cons a all =>
      obtain ⟨leastAll, behindAll⟩ := List.pairwise_cons.mp orderedAll
      -- both lists begin with the same item, because neither misses what comes before its own first
      have firstNotAfter : ¬before first a ∨ first = a := by
        rcases List.mem_cons.mp (part first List.mem_cons_self) with same | behind
        · exact .inr same
        · exact .inl (asymm _ _ (leastAll first behind))
      have same : first = a := by
        rcases firstNotAfter with not | same
        · rcases kept a List.mem_cons_self with inside | ⟨-, late⟩
          · rcases List.mem_cons.mp inside with same | behind
            · exact same.symm
            · exact absurd (least a behind) not
          · exact absurd (late first List.mem_cons_self) not
        · exact same
      subst same
      cases capacity with
      | zero => exact absurd bounded (Nat.not_succ_le_zero _)
      | succ capacity =>
        rw [List.take_succ_cons]
        congr 1
        refine ih ordered behindAll ?_ (Nat.le_of_succ_le_succ bounded) ?_
        · intro b member
          rcases List.mem_cons.mp (part b (List.mem_cons_of_mem _ member)) with rfl | behind
          · exact absurd (least b member) (asymm _ _ (least b member))
          · exact behind
        · intro b member
          rcases kept b (List.mem_cons_of_mem _ member) with inside | ⟨full, late⟩
          · rcases List.mem_cons.mp inside with rfl | behind
            · exact absurd (leastAll b member) (asymm _ _ (leastAll b member))
            · exact .inl behind
          · exact .inr ⟨Nat.succ.inj full, fun c inside => late c (List.mem_cons_of_mem _ inside)⟩

/-- A valid list that holds the best of what was offered is the front of the ranking. -/
theorem scores_of_best {candidates : List Nat} (valid : l.Valid owner)
    (h : Best similarity (· ∈ candidates) l) :
    l.scores = ((ranking similarity candidates).take l.capacity).map fun p =>
      (p.node, p.similarity) := by
  let score (x : Neighbor) (number : x.IsNumber) : Scored := ⟨x.id, x.similarity, number⟩
  have front : l.entries.pmap score valid.numbers
      = (ranking similarity candidates).take l.capacity := by
    refine @eq_take_of_kept Scored (fun p q => p.before q = true) _ _ _ ?_ ?_ ?_ ?_ ?_ ?_
    · intro p q first second
      rw [Scored.before_iff] at first second
      exact lt_asymm first second
    · refine List.Pairwise.pmap valid.ordered valid.numbers ?_
      intro x number y number' before
      exact before
    · exact ranking_pairwise similarity candidates
    · intro p member
      obtain ⟨x, inside, rfl⟩ := List.mem_pmap.mp member
      exact mem_ranking.mpr (h.known x inside)
    · rw [List.length_pmap]
      exact valid.bounded
    · intro p member
      obtain ⟨offered, value⟩ := mem_ranking.mp member
      rw [List.length_pmap]
      rcases h.kept p.node p.similarity offered value p.number with inside | ⟨full, late⟩
      · obtain ⟨x, inside, same⟩ := List.mem_map.mp inside
        refine .inl (List.mem_pmap.mpr ⟨x, inside, Scored.ext same ?_⟩)
        have value' := (h.known x inside).2
        rw [same, value] at value'
        exact (Option.some.inj value').symm
      · refine .inr ⟨full, ?_⟩
        intro q member
        obtain ⟨x, inside, rfl⟩ := List.mem_pmap.mp member
        exact late x inside
  rw [← front, List.map_pmap, scores]
  exact (List.pmap_eq_map ..).symm

end NeighborList

end NeighborGraph
