import Mathlib.Data.List.Perm.Subperm
import NeighborGraph.Proofs.NeighborList.Best
import NeighborGraph.Proofs.Random
import NeighborGraph.Proofs.Random.Total

/-!
# Splitting a list

A split tells the neighbors that were picked before from those that are picked now, and marks the latter
in the list; which neighbors there are, how similar they are and how they are ordered stays as it is
(`NeighborList.Divides`).  It takes no more than that a random order is some order of the same nodes.

A mark lasts as long as the neighbor stays in the list.  So over all offers and splits that it sees, a
neighbor is picked at most once, and from then on it is among the old ones (`NeighborList.Stays.picked`).
-/

namespace NeighborGraph

open NeighborGraph.Action

namespace NeighborList

/-! ### Marks -/

theorem marked_checked (picked : List Nat) (x : Neighbor) :
    (marked picked x).checked = true ↔ x.checked = true ∨ x.id ∈ picked := by
  rw [marked]
  cases before : x.checked with
  | true => simp [before]
  | false =>
    by_cases member : x.id ∈ picked
    · simp [member]
    · simp [member, before]

theorem mem_check {l : NeighborList} {picked : List Nat} {y : Neighbor} :
    y ∈ (l.check picked).entries ↔ ∃ x ∈ l.entries, marked picked x = y := List.mem_map

theorem scores_check (l : NeighborList) (picked : List Nat) : (l.check picked).scores = l.scores := by
  show (l.entries.map (marked picked)).map _ = _
  rw [List.map_map, scores]
  refine List.map_congr_left fun x _ => ?_
  show ((marked picked x).id, (marked picked x).similarity) = (x.id, x.similarity)
  rw [marked_id, marked_similarity]

theorem mem_checkedIds {l : NeighborList} {id : Nat} :
    id ∈ l.checkedIds ↔ ∃ x ∈ l.entries, x.checked = true ∧ x.id = id := by
  rw [checkedIds, List.mem_map]
  simp only [List.mem_filter, and_assoc]

theorem mem_uncheckedIds {l : NeighborList} {id : Nat} :
    id ∈ l.uncheckedIds ↔ ∃ x ∈ l.entries, x.checked = false ∧ x.id = id := by
  rw [uncheckedIds, List.mem_map]
  simp only [List.mem_filter, Bool.not_eq_true', and_assoc]

theorem checkedIds_sublist (l : NeighborList) : l.checkedIds.Sublist l.ids :=
  List.filter_sublist.map _

theorem uncheckedIds_sublist (l : NeighborList) : l.uncheckedIds.Sublist l.ids :=
  List.filter_sublist.map _

/-- Distinct nodes are marked or not. -/
theorem not_mem_uncheckedIds {l : NeighborList} (distinct : l.ids.Nodup) {id : Nat}
    (marked : id ∈ l.checkedIds) : id ∉ l.uncheckedIds := by
  intro unmarked
  obtain ⟨x, inside, checked, rfl⟩ := mem_checkedIds.mp marked
  obtain ⟨y, inside', unchecked, same⟩ := mem_uncheckedIds.mp unmarked
  rw [List.inj_on_of_nodup_map distinct inside' inside same, checked] at unchecked
  exact Bool.noConfusion unchecked

theorem mem_checkedIds_check {l : NeighborList} {picked : List Nat} {id : Nat} :
    id ∈ (l.check picked).checkedIds ↔ id ∈ l.checkedIds ∨ id ∈ l.ids ∧ id ∈ picked := by
  constructor
  · intro member
    obtain ⟨y, after, checked, rfl⟩ := mem_checkedIds.mp member
    obtain ⟨x, inside, rfl⟩ := mem_check.mp after
    rw [marked_id]
    rcases (marked_checked picked x).mp checked with before | now
    · exact .inl (mem_checkedIds.mpr ⟨x, inside, before, rfl⟩)
    · exact .inr ⟨List.mem_map_of_mem inside, now⟩
  · have marks {x : Neighbor} (inside : x ∈ l.entries) (checked : x.checked = true ∨ x.id ∈ picked) :
        x.id ∈ (l.check picked).checkedIds :=
      mem_checkedIds.mpr ⟨marked picked x, mem_check.mpr ⟨x, inside, rfl⟩,
        (marked_checked picked x).mpr checked, marked_id picked x⟩
    rintro (before | ⟨member, now⟩)
    · obtain ⟨x, inside, checked, rfl⟩ := mem_checkedIds.mp before
      exact marks inside (.inl checked)
    · obtain ⟨x, inside, rfl⟩ := List.mem_map.mp member
      exact marks inside (.inr now)

/-- Marks are those from before and those of the new neighbors that were picked. -/
theorem checkedIds_check_perm {l : NeighborList} (distinct : l.ids.Nodup) {picked : List Nat}
    (once : picked.Nodup) (new : picked ⊆ l.uncheckedIds) :
    (l.check picked).checkedIds.Perm (l.checkedIds ++ picked) := by
  have after : (l.check picked).ids.Nodup := by
    rw [ids_check]
    exact distinct
  refine (List.perm_ext_iff_of_nodup (after.sublist (checkedIds_sublist _)) ?_).mpr fun id => ?_
  · refine List.nodup_append'.mpr ⟨distinct.sublist (checkedIds_sublist l), once, ?_⟩
    exact fun id before now => not_mem_uncheckedIds distinct before (new now)
  · rw [mem_checkedIds_check, List.mem_append]
    refine or_congr_right ⟨And.right, fun now => ⟨?_, now⟩⟩
    exact (uncheckedIds_sublist l).subset (new now)

/-! ### Splits -/

/-- What a split makes of a list: the old neighbors in the order of the list, so many distinct new ones,
and the list with exactly these two marked. -/
structure Divides (sampleSize : Nat) (l : NeighborList) (parts : Parts) : Prop where
  old : parts.old = l.checkedIds
  length : parts.new.length = min sampleSize l.uncheckedIds.length
  distinct : parts.new.Nodup
  new : parts.new ⊆ l.uncheckedIds
  marks : parts.list.checkedIds.Perm (parts.old ++ parts.new)
  scores : parts.list.scores = l.scores
  capacity : parts.list.capacity = l.capacity

/-- As many nodes as asked for, or all of them. -/
theorem pick_subperm (amount : Nat) (ids : List Nat) :
    (pick amount ids).Yields fun picked =>
      picked.length = min amount ids.length ∧ picked.Subperm ids := by
  refine ensures_ite (fun many => ?_) fun few => yields_pure ?_
  · refine yields_bind (Random.shuffle_yields ids.toArray) fun xs perm => yields_pure ?_
    have same : xs.toList.Perm ids := Array.perm_iff_toList_perm.mp perm
    refine ⟨?_, (List.take_sublist _ _).subperm.trans same.subperm⟩
    rw [List.length_take, same.length_eq]
  · exact ⟨(Nat.min_eq_right (Nat.not_lt.mp few)).symm, .refl ids⟩

theorem split_divides {l : NeighborList} (distinct : l.ids.Nodup) (sampleSize : Nat) :
    (l.split sampleSize).Yields (Divides sampleSize l) := by
  refine yields_bind (pick_subperm sampleSize l.uncheckedIds) fun new ⟨length, part⟩ => ?_
  have once : new.Nodup := by
    obtain ⟨ids, perm, part⟩ := part
    exact perm.nodup_iff.mp (distinct.sublist (part.trans (uncheckedIds_sublist l)))
  exact yields_pure ⟨rfl, length, once, part.subset,
    checkedIds_check_perm distinct once part.subset, scores_check l new, rfl⟩

theorem pick_total (amount : Nat) (ids : List Nat) : (pick amount ids).Total := by
  rw [pick]
  refine delivers_ite (fun _ => ?_) fun _ => total_pure ids
  exact total_then (Random.shuffle_total _) fun order => total_pure _

theorem split_total (l : NeighborList) (sampleSize : Nat) : (l.split sampleSize).Total :=
  total_then (pick_total sampleSize _) fun _ => total_pure _

/-- Old and new neighbors are neighbors. -/
theorem split_yields_ids (l : NeighborList) (sampleSize : Nat) :
    (l.split sampleSize).Yields fun parts => parts.old ⊆ l.ids ∧ parts.new ⊆ l.ids := by
  refine yields_bind (pick_subperm sampleSize _) fun new ⟨_, picked⟩ => yields_pure ?_
  exact ⟨l.checkedIds_sublist.subset, List.Subset.trans picked.subset l.uncheckedIds_sublist.subset⟩

/-- The neighbors are the same as before. -/
theorem Divides.ids_eq {sampleSize : Nat} {l : NeighborList} {parts : Parts}
    (h : Divides sampleSize l parts) : parts.list.ids = l.ids := by
  have ids (l : NeighborList) : l.ids = l.scores.map Prod.fst := by
    rw [NeighborList.scores, List.map_map]
    rfl
  rw [ids, ids, h.scores]

/-! ### As long as a neighbor stays -/

/-- A node stays in a list over offers and splits, of which these are the parts, the earliest first. -/
inductive Stays (id : Nat) : NeighborList → List Parts → Prop
  | rests {l : NeighborList} (there : id ∈ l.ids) : Stays id l []
  | offered {l : NeighborList} {parts : List Parts} (there : id ∈ l.ids)
      (owner candidate : Nat) (similarity : Float)
      (later : Stays id (l.add owner candidate similarity).2 parts) : Stays id l parts
  | splits {l : NeighborList} {parts : Parts} {rest : List Parts} (there : id ∈ l.ids)
      (sampleSize : Nat) {stream stream' : Random.Stream}
      (run : l.split sampleSize stream = (.ok parts, stream'))
      (later : Stays id parts.list rest) : Stays id l (parts :: rest)

variable {id : Nat} {l : NeighborList} {parts : List Parts}

theorem Stays.there (h : Stays id l parts) : id ∈ l.ids := by
  cases h with
  | rests there => exact there
  | offered there => exact there
  | splits there => exact there

/-- An offer takes no mark from a neighbor that stays. -/
theorem mem_checkedIds_add (distinct : l.ids.Nodup) {owner candidate : Nat} {similarity : Float}
    (marked : id ∈ l.checkedIds) (stays : id ∈ (l.add owner candidate similarity).2.ids) :
    id ∈ (l.add owner candidate similarity).2.checkedIds := by
  obtain ⟨x, inside, checked, rfl⟩ := mem_checkedIds.mp marked
  rcases add_cases l owner candidate similarity with
    ⟨-, same⟩ | ⟨taken, ⟨-, placed⟩ | ⟨-, -, same⟩ | ⟨-, -, placed⟩⟩
  · rw [same]
    exact marked
  · rw [placed]
    exact mem_checkedIds.mpr ⟨x, mem_place.mpr (.inr inside), checked, rfl⟩
  · rw [same]
    exact marked
  · -- the node is not the candidate, which is new, so it is not the one that left
    rw [placed] at stays ⊢
    obtain ⟨y, member, same⟩ := List.mem_map.mp stays
    rcases mem_place.mp member with rfl | kept
    · exact absurd (List.mem_map.mpr ⟨x, inside, same.symm⟩) (of_not_refuses taken).2.2.2
    · have before : y ∈ l.entries := (List.dropLast_sublist _).subset kept
      obtain rfl := List.inj_on_of_nodup_map distinct before inside same
      exact mem_checkedIds.mpr ⟨y, mem_place.mpr (.inr kept), checked, rfl⟩

/-- Once it is marked, a neighbor is among the old ones of every split. -/
theorem Stays.old_of_marked (h : Stays id l parts) (distinct : l.ids.Nodup)
    (marked : id ∈ l.checkedIds) : ∀ p ∈ parts, id ∈ p.old ∧ id ∉ p.new := by
  induction h with
  | rests there => exact fun p none => absurd none List.not_mem_nil
  | offered there owner candidate similarity later ih =>
    exact ih (nodup_add distinct owner candidate similarity)
      (mem_checkedIds_add distinct marked later.there)
  | splits there sampleSize run later ih =>
    have divides := split_divides distinct sampleSize _ _ _ trivial run
    have old : id ∈ _ := divides.old ▸ marked
    refine List.forall_mem_cons.mpr ⟨⟨old, fun new => ?_⟩, ih ?_ ?_⟩
    · exact not_mem_uncheckedIds distinct marked (divides.new new)
    · exact divides.ids_eq.symm ▸ distinct
    · exact divides.marks.mem_iff.mpr (List.mem_append_left _ old)

/-- Over any offers and splits a neighbor that stays is picked at most once, and from then on it is among
the old ones. -/
theorem Stays.picked (h : Stays id l parts) (distinct : l.ids.Nodup) :
    parts.countP (fun p => decide (id ∈ p.new)) ≤ 1
      ∧ parts.Pairwise fun p q => id ∈ p.new → id ∈ q.old := by
  induction h with
  | rests there => exact ⟨Nat.zero_le 1, .nil⟩
  | offered there owner candidate similarity later ih =>
    exact ih (nodup_add distinct owner candidate similarity)
  | @splits l p rest there sampleSize _ _ run later ih =>
    have divides := split_divides distinct sampleSize _ _ _ trivial run
    have distinct' : p.list.ids.Nodup := divides.ids_eq.symm ▸ distinct
    obtain ⟨once, ordered⟩ := ih distinct'
    have after (new : id ∈ p.new) : ∀ q ∈ rest, id ∈ q.old ∧ id ∉ q.new :=
      later.old_of_marked distinct' (divides.marks.mem_iff.mpr (List.mem_append_right _ new))
    refine ⟨?_, List.pairwise_cons.mpr ⟨fun q member new => (after new q member).1, ordered⟩⟩
    by_cases new : id ∈ p.new
    · have never : rest.countP (fun p => decide (id ∈ p.new)) = 0 :=
        List.countP_eq_zero.mpr fun q member => by simp [(after new q member).2]
      rw [List.countP_cons, never, Nat.zero_add]
      split
      · exact Nat.le_refl 1
      · exact Nat.zero_le 1
    · rw [List.countP_cons_of_neg (by simpa using new)]
      exact once

end NeighborList

end NeighborGraph
