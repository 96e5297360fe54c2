import Mathlib.Data.List.Perm.Subperm
import NeighborGraph.Proofs.Random

/-!
# Samples hold different numbers

However it is drawn, a sample holds as many numbers as were asked for, and no number twice
(`sample_distinct`).  In place this is so because exchanges only permute; by insertion, because a
number that would come up again is replaced by a bound that no earlier number reached; by rejection,
because a number that is in the sample is drawn anew, and as long as the sample is not complete there
is one that is not in it.

A sample that is as large as its length holds all numbers below it (`Sampled.all`).
-/

namespace NeighborGraph.Random

open NeighborGraph.Action

/-- Different numbers below a length, as many as asked for. -/
structure Sampled (length amount : Nat) (xs : List Nat) : Prop where
  below : Below length xs
  distinct : xs.Nodup
  complete : xs.length = amount

/-- Different numbers below a length are all of them, if there are enough. -/
theorem mem_of_full {length : Nat} {xs : List Nat} (distinct : xs.Nodup) (below : Below length xs)
    (full : length ≤ xs.length) {x : Nat} (small : x < length) : x ∈ xs := by
  have part : xs ⊆ List.range length := fun y member => List.mem_range.mpr (below y member)
  have perm : xs.Perm (List.range length) := by
    refine (distinct.subperm part).perm_of_length_le ?_
    rw [List.length_range]
    exact full
  exact perm.mem_iff.mpr (List.mem_range.mpr small)

theorem Sampled.all {length amount : Nat} {xs : List Nat} (h : Sampled length amount xs)
    (full : length ≤ amount) {x : Nat} (small : x < length) : x ∈ xs :=
  mem_of_full h.distinct h.below (h.complete ▸ full) small

/-! ### In place -/

theorem sampleInPlace_distinct {length amount : Nat} (enough : amount ≤ length) :
    (sampleInPlace length amount).Yields (Sampled length amount) := by
  refine yields_bind (placeFrom_yields amount 0 (Array.Perm.refl _)) fun ys perm => yields_pure ?_
  have numbers : ys.toList.Perm (List.range length) := by
    rw [← Array.toList_range]
    exact perm.toList
  refine ⟨?_, ?_, ?_⟩
  · intro x member
    exact List.mem_range.mp (numbers.mem_iff.mp (List.mem_of_mem_take member))
  · exact (numbers.nodup_iff.mpr List.nodup_range).sublist (List.take_sublist _ _)
  · rw [List.length_take, numbers.length_eq, List.length_range]
    omega

/-! ### By insertion -/

theorem perm_insertBefore {old new : Nat} {xs : List Nat} (there : old ∈ xs) :
    (insertBefore old new xs).Perm (new :: xs) := by
  induction xs with
  | nil => exact absurd there List.not_mem_nil
  | cons y rest ih =>
    rw [insertBefore]
    split
    · exact .refl _
    · next other =>
      rcases List.mem_cons.mp there with rfl | behind
      · exact absurd rfl other
      · exact ((ih behind).cons y).trans (.swap new y rest)

/-- What enters is the number, or the bound if the number is there already. -/
theorem perm_enter (ordered : Bool) (j t : Nat) (xs : List Nat) :
    (enter ordered j t xs).Perm ((if t ∈ xs then j else t) :: xs) := by
  rw [enter]
  by_cases there : t ∈ xs
  · rw [if_pos (List.contains_iff_mem.mpr there), if_pos there]
    split
    · exact perm_insertBefore there
    · exact List.perm_append_singleton j xs
  · rw [if_neg fun found => there (List.contains_iff_mem.mp found), if_neg there]
    exact List.perm_append_singleton t xs

/-- Neither a new number nor the bound is in a sample of numbers below the bound. -/
theorem sampled_enter {j t amount : Nat} {xs : List Nat} (ordered : Bool)
    (h : Sampled j amount xs) (small : t < j + 1) :
    Sampled (j + 1) (amount + 1) (enter ordered j t xs) := by
  have perm := perm_enter ordered j t xs
  have new : (if t ∈ xs then j else t) ∉ xs ∧ (if t ∈ xs then j else t) < j + 1 := by
    split
    · exact ⟨fun member => absurd (h.below j member) (Nat.lt_irrefl j), Nat.lt_succ_self j⟩
    · next absent => exact ⟨absent, small⟩
  refine ⟨?_, ?_, ?_⟩
  · intro x member
    rcases List.mem_cons.mp (perm.mem_iff.mp member) with rfl | before
    · exact new.2
    · exact Nat.lt_succ_of_lt (h.below x before)
  · exact perm.nodup_iff.mpr (List.nodup_cons.mpr ⟨new.1, h.distinct⟩)
  · rw [perm.length_eq, List.length_cons, h.complete]

theorem enterFrom_distinct (ordered : Bool) (more : Nat) {j amount : Nat} {xs : List Nat}
    (h : Sampled j amount xs) :
    (enterFrom ordered more j xs).Yields (Sampled (j + more) (amount + more)) := by
  induction more generalizing j amount xs with
  | zero => exact yields_pure h
  | succ more ih =>
    refine yields_bind (below32_yields _) fun t small => ?_
    have others := ih (sampled_enter ordered h small)
    rw [Nat.add_right_comm j 1 more, Nat.add_right_comm amount 1 more] at others
    exact others

theorem sampleByInsertion_distinct {length amount : Nat} (enough : amount ≤ length) :
    (sampleByInsertion length amount).Yields (Sampled length amount) := by
  have entered := enterFrom_distinct (decide (amount < 50)) amount
    (show Sampled (length - amount) 0 [] from ⟨below_nil _, .nil, rfl⟩)
  rw [Nat.sub_add_cancel enough, Nat.zero_add] at entered
  refine yields_bind entered fun xs sampled => ?_
  refine ensures_ite (fun _ => yields_pure sampled) fun _ => ?_
  refine yields_bind (shuffle_yields xs.toArray) fun ys perm => yields_pure ?_
  have perm : ys.toList.Perm xs := perm.toList
  exact ⟨fun x member => sampled.below x (perm.mem_iff.mp member),
    perm.nodup_iff.mpr sampled.distinct, perm.length_eq.trans sampled.complete⟩

/-! ### By rejection -/

/-- A number below a length that a shorter list does not hold. -/
theorem exists_fresh {length : Nat} {xs : List Nat} (room : xs.length < length) :
    ∃ x < length, x ∉ xs := by
  by_contra none
  have all : List.range length ⊆ xs := by
    intro x member
    by_contra absent
    exact none ⟨x, List.mem_range.mp member, absent⟩
  have fewer := (List.nodup_range.subperm all).length_le
  rw [List.length_range] at fewer
  omega

theorem freshBelow_fresh {n : Nat} {xs : List Nat} (room : xs.length < n) (more : Nat) :
    (freshBelow n xs more).Yields fun x => x < n ∧ x ∉ xs := by
  have some : 0 < n := Nat.lt_of_le_of_lt (Nat.zero_le _) room
  induction more with
  | zero =>
    refine yields_pure ?_
    obtain ⟨y, small, absent⟩ := exists_fresh room
    cases found : (List.range n).find? fun x => !xs.contains x with
    | none =>
      have held := List.find?_eq_none.mp found y (List.mem_range.mpr small)
      rw [Bool.not_eq_true', Bool.not_eq_false, List.contains_iff_mem] at held
      exact absurd held absent
    | some x =>
      have free := List.find?_some found
      rw [Bool.not_eq_true', ← Bool.not_eq_true, List.contains_iff_mem] at free
      exact ⟨List.mem_range.mp (List.mem_of_find?_eq_some found), free⟩
  | succ more ih =>
    refine yields_bind (belowByRejection_yields some _) fun x small => ?_
    refine ensures_ite (fun _ => ih) fun absent => yields_pure ⟨small, ?_⟩
    exact fun member => absent (List.contains_iff_mem.mpr member)

theorem rejectFrom_distinct {length amount : Nat} (more : Nat) {xs : List Nat}
    (h : Sampled length amount xs) (room : amount + more ≤ length) :
    (rejectFrom length more xs).Yields (Sampled length (amount + more)) := by
  induction more generalizing amount xs with
  | zero => exact yields_pure h
  | succ more ih =>
    have complete := h.complete
    refine yields_bind (freshBelow_fresh (show xs.length < length by omega) _) ?_
    intro x ⟨small, absent⟩
    have perm := List.perm_append_singleton x xs
    have one : Sampled length (amount + 1) (xs ++ [x]) := by
      refine ⟨?_, perm.nodup_iff.mpr (List.nodup_cons.mpr ⟨absent, h.distinct⟩), ?_⟩
      · intro y member
        rcases List.mem_cons.mp (perm.mem_iff.mp member) with rfl | before
        · exact small
        · exact h.below y before
      · rw [perm.length_eq, List.length_cons, complete]
    have others := ih one (by omega)
    rw [Nat.add_right_comm amount 1 more] at others
    exact others

/-- A sample holds different numbers, as many as asked for. -/
theorem sample_distinct (length amount : Nat) :
    (sample length amount).Yields (Sampled length amount) := by
  rw [sample]
  refine ensures_ite (fun _ => ensures_fail) fun enough => ?_
  have enough : amount ≤ length := Nat.not_lt.mp enough
  split
  · exact sampleInPlace_distinct enough
  · exact sampleByInsertion_distinct enough
  · have drawn := rejectFrom_distinct amount
      (show Sampled length 0 [] from ⟨below_nil _, .nil, rfl⟩) (by omega)
    rw [Nat.zero_add] at drawn
    exact drawn

end NeighborGraph.Random
