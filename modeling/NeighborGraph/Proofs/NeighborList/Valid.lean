import NeighborGraph.NeighborList
import NeighborGraph.Proofs.NumberLine

/-!
# Neighbor lists stay in order

`NeighborList.Valid` is what every list of a run is: no longer than its capacity, free of NaN, of its
owner and of repeated nodes, and strictly in order, best neighbor first.

The order of neighbors is the one of a line (`precedes_iff`), so a neighbor put in its place keeps the
list in order (`pairwise_place`).  From that, every operation on lists keeps them valid: an offer
(`valid_add`), picking (`valid_check`) and cutting off (`valid_filter`).
-/

namespace NeighborGraph

namespace Neighbor

/-- Whether the similarity of a neighbor is a number. -/
def IsNumber (x : Neighbor) : Prop := x.similarity.isNaN = false

/-- The place of a neighbor in the order: more similar ones first, then smaller numbers. -/
def rank (x : Neighbor) : (ℤ ×ₗ ℤ ×ₗ ℤ)ᵒᵈ ×ₗ ℕ :=
  toLex (OrderDual.toDual (NumberLine.place x.similarity), x.id)

/-- For numbers the order is what it is meant to be. -/
theorem precedes_iff_better {x y : Neighbor} (hx : x.IsNumber) (hy : y.IsNumber) :
    x.precedes y = true
      ↔ y.similarity < x.similarity ∨ ((x.similarity == y.similarity) = true ∧ x.id < y.id) := by
  have better := NumberLine.lt_iff_place hy hx
  have worse := NumberLine.lt_iff_place hx hy
  have equal := NumberLine.beq_iff_place hx hy
  rw [precedes, Bool.or_eq_true, Bool.and_eq_true, Bool.not_eq_true', decide_eq_true_iff,
    decide_eq_false_iff_not, decide_eq_true_iff, better, worse, equal]
  constructor
  · rintro (h | ⟨h, less⟩)
    · exact .inl h
    · rcases lt_or_eq_of_le (not_lt.mp h) with h | h
      · exact .inl h
      · exact .inr ⟨h.symm, less⟩
  · rintro (h | ⟨h, less⟩)
    · exact .inl h
    · exact .inr ⟨not_lt.mpr (le_of_eq h.symm), less⟩

theorem precedes_iff {x y : Neighbor} (hx : x.IsNumber) (hy : y.IsNumber) :
    x.precedes y = true ↔ x.rank < y.rank := by
  rw [precedes_iff_better hx hy, NumberLine.lt_iff_place hy hx, NumberLine.beq_iff_place hx hy,
    rank, rank, Prod.Lex.toLex_lt_toLex]
  exact Iff.or Iff.rfl (Iff.and OrderDual.toDual_inj.symm Iff.rfl)

theorem precedes_trans {x y z : Neighbor} (hx : x.IsNumber) (hy : y.IsNumber) (hz : z.IsNumber)
    (h : x.precedes y = true) (h' : y.precedes z = true) : x.precedes z = true := by
  rw [precedes_iff hx hy] at h
  rw [precedes_iff hy hz] at h'
  rw [precedes_iff hx hz]
  exact lt_trans h h'

/-- Of two different nodes one precedes the other. -/
theorem precedes_of_not {x y : Neighbor} (hx : x.IsNumber) (hy : y.IsNumber)
    (different : x.id ≠ y.id) (h : ¬x.precedes y = true) : y.precedes x = true := by
  rw [precedes_iff hx hy] at h
  rw [precedes_iff hy hx]
  refine lt_of_le_of_ne (not_lt.mp h) ?_
  intro same
  have ids : y.id = x.id := congrArg (fun place => (ofLex place).2) same
  exact different ids.symm

end Neighbor

namespace NeighborList

/-- What every list of a run is. -/
structure Valid (l : NeighborList) (owner : Nat) : Prop where
  bounded : l.entries.length ≤ l.capacity
  numbers : ∀ x ∈ l.entries, x.IsNumber
  ordered : l.entries.Pairwise fun x y => x.precedes y = true
  distinct : l.ids.Nodup
  others : owner ∉ l.ids

theorem valid_empty (capacity owner : Nat) : Valid { capacity } owner :=
  ⟨Nat.zero_le _, fun _ member => absurd member List.not_mem_nil, .nil, .nil, List.not_mem_nil⟩

/-! ### Neighbors in their place -/

theorem perm_place (x : Neighbor) (entries : List Neighbor) :
    (place x entries).Perm (x :: entries) := by
  induction entries with
  | nil => exact .refl _
  | cons y rest ih =>
    rw [place]
    split
    · exact (ih.cons y).trans (.swap x y rest)
    · exact .refl _

theorem mem_place {x y : Neighbor} {entries : List Neighbor} :
    y ∈ place x entries ↔ y = x ∨ y ∈ entries := by
  rw [(perm_place x entries).mem_iff, List.mem_cons]

theorem length_place (x : Neighbor) (entries : List Neighbor) :
    (place x entries).length = entries.length + 1 := (perm_place x entries).length_eq

/-- A new neighbor in its place leaves nodes distinct. -/
theorem nodup_place {x : Neighbor} {entries : List Neighbor}
    (distinct : (entries.map (·.id)).Nodup) (new : x.id ∉ entries.map (·.id)) :
    ((place x entries).map (·.id)).Nodup := by
  rw [((perm_place x entries).map (·.id)).nodup_iff, List.map_cons]
  exact List.nodup_cons.mpr ⟨new, distinct⟩

/-- A new neighbor in its place leaves a list in order. -/
theorem pairwise_place {x : Neighbor} {entries : List Neighbor} (number : x.IsNumber)
    (numbers : ∀ y ∈ entries, y.IsNumber)
    (ordered : entries.Pairwise fun y z => y.precedes z = true)
    (new : ∀ y ∈ entries, x.id ≠ y.id) :
    (place x entries).Pairwise fun y z => y.precedes z = true := by
  induction entries with
  | nil => exact List.pairwise_singleton _ x
  | cons y rest ih =>
    obtain ⟨first, ordered⟩ := List.pairwise_cons.mp ordered
    have numberY := numbers y List.mem_cons_self
    have numbersRest : ∀ z ∈ rest, z.IsNumber := fun z member =>
      numbers z (List.mem_cons_of_mem _ member)
    have newRest : ∀ z ∈ rest, x.id ≠ z.id := fun z member =>
      new z (List.mem_cons_of_mem _ member)
    rw [place]
    by_cases before : y.precedes x = true
    · rw [if_pos before]
      refine List.pairwise_cons.mpr ⟨?_, ih numbersRest ordered newRest⟩
      intro z member
      rcases mem_place.mp member with rfl | member
      · exact before
      · exact first z member
    · rw [if_neg before]
      have after := Neighbor.precedes_of_not numberY number
        (Ne.symm (new y List.mem_cons_self)) before
      refine List.pairwise_cons.mpr ⟨?_, List.pairwise_cons.mpr ⟨first, ordered⟩⟩
      intro z member
      rcases List.mem_cons.mp member with rfl | member
      · exact after
      · exact Neighbor.precedes_trans number numberY (numbersRest z member) after (first z member)

/-! ### Offers -/

/-- A candidate that is not refused is a number and a new node, and the list has a place at all. -/
theorem of_not_refuses {l : NeighborList} {owner candidate : Nat} {similarity : Float}
    (h : ¬l.refuses owner candidate similarity = true) :
    candidate ≠ owner ∧ l.capacity ≠ 0 ∧ similarity.isNaN = false ∧ candidate ∉ l.ids := by
  have absent : l.contains candidate = decide (candidate ∈ l.ids) := by
    rw [contains, ids, Bool.eq_iff_iff, decide_eq_true_iff, List.any_eq_true, List.mem_map]
    simp only [beq_iff_eq]
  rw [refuses, absent] at h
  simp only [Bool.or_eq_true, beq_iff_eq, decide_eq_true_iff, not_or, Bool.not_eq_true] at h
  exact ⟨h.1.1.1, h.1.1.2, h.1.2, h.2⟩

/-- What an offer does to a list. -/
theorem add_cases (l : NeighborList) (owner candidate : Nat) (similarity : Float) :
    (l.refuses owner candidate similarity = true ∧ (l.add owner candidate similarity).2 = l)
      ∨ (¬l.refuses owner candidate similarity = true
          ∧ ((l.entries.length < l.capacity
                ∧ (l.add owner candidate similarity).2
                  = { l with entries := place { id := candidate, similarity } l.entries })
              ∨ (¬l.entries.length < l.capacity
                ∧ l.entries.all (·.precedes { id := candidate, similarity }) = true
                ∧ (l.add owner candidate similarity).2 = l)
              ∨ (¬l.entries.length < l.capacity
                ∧ ¬l.entries.all (·.precedes { id := candidate, similarity }) = true
                ∧ (l.add owner candidate similarity).2
                  = { l with
                      entries := place { id := candidate, similarity } l.entries.dropLast }))) := by
  by_cases refused : l.refuses owner candidate similarity = true
  · refine .inl ⟨refused, ?_⟩
    rw [add, if_pos refused]
  · refine .inr ⟨refused, ?_⟩
    by_cases room : l.entries.length < l.capacity
    · refine .inl ⟨room, ?_⟩
      rw [add, if_neg refused, if_pos room]
    · by_cases late : l.entries.all (·.precedes { id := candidate, similarity }) = true
      · refine .inr (.inl ⟨room, late, ?_⟩)
        rw [add, if_neg refused, if_neg room, if_pos late]
      · refine .inr (.inr ⟨room, late, ?_⟩)
        rw [add, if_neg refused, if_neg room, if_neg late]

theorem capacity_add (l : NeighborList) (owner candidate : Nat) (similarity : Float) :
    (l.add owner candidate similarity).2.capacity = l.capacity := by
  rcases add_cases l owner candidate similarity with ⟨-, same⟩ | ⟨-, ⟨-, h⟩ | ⟨-, -, h⟩ | ⟨-, -, h⟩⟩
  · rw [same]
  · rw [h]
  · rw [h]
  · rw [h]

/-- An offer brings in no more than the candidate. -/
theorem mem_add {l : NeighborList} {owner candidate : Nat} {similarity : Float} {x : Neighbor}
    (h : x ∈ (l.add owner candidate similarity).2.entries) :
    x = { id := candidate, similarity } ∨ x ∈ l.entries := by
  rcases add_cases l owner candidate similarity with
    ⟨-, same⟩ | ⟨-, ⟨-, placed⟩ | ⟨-, -, same⟩ | ⟨-, -, placed⟩⟩
  · rw [same] at h
    exact .inr h
  · rw [placed] at h
    exact mem_place.mp h
  · rw [same] at h
    exact .inr h
  · rw [placed] at h
    rcases mem_place.mp h with new | before
    · exact .inl new
    · exact .inr ((List.dropLast_sublist _).subset before)

/-- Nodes of a list stay distinct. -/
theorem nodup_add {l : NeighborList} (distinct : l.ids.Nodup) (owner candidate : Nat)
    (similarity : Float) : (l.add owner candidate similarity).2.ids.Nodup := by
  rcases add_cases l owner candidate similarity with
    ⟨-, same⟩ | ⟨taken, ⟨-, placed⟩ | ⟨-, -, same⟩ | ⟨-, -, placed⟩⟩
  · rw [same]
    exact distinct
  · rw [placed]
    exact nodup_place distinct (of_not_refuses taken).2.2.2
  · rw [same]
    exact distinct
  · have part : (l.entries.dropLast.map (·.id)).Sublist l.ids :=
      (List.dropLast_sublist l.entries).map (·.id)
    rw [placed]
    refine nodup_place (distinct.sublist part) fun member => ?_
    exact (of_not_refuses taken).2.2.2 (part.subset member)

/-- A new neighbor takes its place among some of the neighbors of a valid list. -/
theorem valid_place {l : NeighborList} {owner candidate : Nat} {similarity : Float}
    (h : l.Valid owner) (taken : ¬l.refuses owner candidate similarity = true)
    {entries : List Neighbor} (part : entries.Sublist l.entries)
    (room : entries.length + 1 ≤ l.capacity) :
    Valid { l with entries := place { id := candidate, similarity } entries } owner := by
  obtain ⟨other, -, number, new⟩ := of_not_refuses taken
  have numbers : ∀ y ∈ entries, y.IsNumber := fun y member => h.numbers y (part.subset member)
  have new' : candidate ∉ entries.map (·.id) := fun member =>
    new ((part.map _).subset member)
  have perm := (perm_place { id := candidate, similarity } entries).map (·.id)
  refine ⟨?_, ?_, ?_, ?_, ?_⟩
  · show (place _ entries).length ≤ l.capacity
    rw [length_place]
    exact room
  · intro y member
    rcases mem_place.mp member with rfl | member
    · exact number
    · exact numbers y member
  · refine pairwise_place number numbers (h.ordered.sublist part) ?_
    intro y member same
    exact new' (List.mem_map.mpr ⟨y, member, same.symm⟩)
  · exact nodup_place (h.distinct.sublist (part.map _)) new'
  · intro member
    rcases List.mem_cons.mp (perm.mem_iff.mp member) with rfl | member
    · exact other rfl
    · exact h.others ((part.map _).subset member)

/-- An offer leaves a list valid, whatever is offered. -/
theorem valid_add {l : NeighborList} {owner : Nat} (h : l.Valid owner) (candidate : Nat)
    (similarity : Float) : (l.add owner candidate similarity).2.Valid owner := by
  rcases add_cases l owner candidate similarity with
    ⟨-, same⟩ | ⟨taken, ⟨room, placed⟩ | ⟨-, -, same⟩ | ⟨full, -, placed⟩⟩
  · rw [same]
    exact h
  · rw [placed]
    exact valid_place h taken (List.Sublist.refl _) room
  · rw [same]
    exact h
  · rw [placed]
    refine valid_place h taken (List.dropLast_sublist _) ?_
    have some := (of_not_refuses taken).2.1
    have bounded := h.bounded
    rw [List.length_dropLast]
    omega

/-! ### Picking and cutting off -/

/-- A neighbor after some were picked. -/
def marked (picked : List Nat) (x : Neighbor) : Neighbor :=
  if !x.checked && picked.contains x.id then { x with checked := true } else x

theorem marked_id (picked : List Nat) (x : Neighbor) : (marked picked x).id = x.id := by
  rw [marked]
  split <;> rfl

theorem marked_similarity (picked : List Nat) (x : Neighbor) :
    (marked picked x).similarity = x.similarity := by
  rw [marked]
  split <;> rfl

theorem ids_check (l : NeighborList) (picked : List Nat) : (l.check picked).ids = l.ids := by
  show (l.entries.map (marked picked)).map (·.id) = _
  rw [List.map_map, ids]
  apply List.map_congr_left
  intro x _
  exact marked_id picked x

/-- Picking only marks neighbors. -/
theorem valid_check {l : NeighborList} {owner : Nat} (h : l.Valid owner) (picked : List Nat) :
    (l.check picked).Valid owner := by
  refine ⟨?_, ?_, ?_, ?_, ?_⟩
  · show (l.entries.map (marked picked)).length ≤ l.capacity
    rw [List.length_map]
    exact h.bounded
  · intro y member
    obtain ⟨x, inside, rfl⟩ := List.mem_map.mp member
    show (marked picked x).similarity.isNaN = false
    rw [marked_similarity]
    exact h.numbers x inside
  · refine List.pairwise_map.mpr (h.ordered.imp ?_)
    intro x y before
    show (marked picked x).precedes (marked picked y) = true
    rw [Neighbor.precedes, marked_id, marked_id, marked_similarity, marked_similarity]
    exact before
  · rw [ids_check]
    exact h.distinct
  · rw [ids_check]
    exact h.others

/-- Cutting off only drops neighbors. -/
theorem valid_filter {l : NeighborList} {owner : Nat} (h : l.Valid owner) (cutoff : Float) :
    (l.filter cutoff).Valid owner := by
  have part : (l.filter cutoff).entries.Sublist l.entries := List.filter_sublist
  refine ⟨?_, ?_, ?_, ?_, ?_⟩
  · exact Nat.le_trans part.length_le h.bounded
  · exact fun x member => h.numbers x (part.subset member)
  · exact h.ordered.sublist part
  · exact h.distinct.sublist (part.map _)
  · exact fun member => h.others ((part.map _).subset member)

end NeighborList

end NeighborGraph
