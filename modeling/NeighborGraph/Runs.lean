/-!
# Runs — equal neighbours in a list

`dropRepeats` keeps one item of every run of equal items.  On a sorted list that leaves every item
once (`pairwise_dropRepeats`).  On any other list it takes `List.eraseDups` to do that
(`nodup_eraseDups`).
-/

namespace NeighborGraph

/-- Drops every item that equals the one after it. -/
def dropRepeats {α : Type} [DecidableEq α] : List α → List α
  | [] => []
  | [x] => [x]
  | x :: y :: rest => if x = y then dropRepeats (y :: rest) else x :: dropRepeats (y :: rest)

/-- Nothing is lost or invented. -/
theorem mem_dropRepeats {α : Type} [DecidableEq α] {x : α} {xs : List α} :
    x ∈ dropRepeats xs ↔ x ∈ xs := by
  fun_induction dropRepeats xs with
  | case1 => exact Iff.rfl
  | case2 => exact Iff.rfl
  | case3 y rest ih => simp [ih]
  | case4 y z rest different ih => simp [ih]

/-- The first of all equal items is the only one that is kept. -/
theorem nodup_eraseDups {α : Type} [BEq α] [LawfulBEq α] (xs : List α) : xs.eraseDups.Nodup := by
  -- every item takes its repetitions with it, so the recursion is on the length
  induction length : xs.length using Nat.strongRecOn generalizing xs with
  | _ length' ih =>
    cases xs with
    | nil => exact .nil
    | cons x rest =>
      rw [List.eraseDups_cons, List.nodup_cons]
      have shorter : (rest.filter fun y => !y == x).length < length' := by
        rw [← length, List.length_cons]
        exact Nat.lt_succ_of_le (List.length_filter_le _ _)
      refine ⟨fun again => ?_, ih _ shorter _ rfl⟩
      have other := (List.mem_filter.mp (List.mem_eraseDups.mp again)).2
      simp at other

/-! ### Sorted lists -/

section Sorted

variable {α : Type} [LE α]

theorem le_of_decide [DecidableLE α] [Std.IsPartialOrder α] (x y z : α) (h : decide (x ≤ y))
    (h' : decide (y ≤ z)) : decide (x ≤ z) :=
  decide_eq_true (Std.le_trans (of_decide_eq_true h) (of_decide_eq_true h'))

theorem le_or_le [DecidableLE α] [Std.IsLinearOrder α] (x y : α) :
    (decide (x ≤ y) || decide (y ≤ x)) = true := by
  simpa using Std.le_total

theorem pairwise_sorted [DecidableLE α] [Std.IsLinearOrder α] (xs : List α) :
    (xs.mergeSort fun x y => decide (x ≤ y)).Pairwise (· ≤ ·) :=
  (List.pairwise_mergeSort le_of_decide le_or_le xs).imp of_decide_eq_true

/-- In a sorted list all repeats are neighbours. -/
theorem pairwise_dropRepeats [DecidableEq α] [LT α] [Std.IsPartialOrder α] [Std.LawfulOrderLT α]
    {xs : List α} (sorted : xs.Pairwise (· ≤ ·)) : (dropRepeats xs).Pairwise (· < ·) := by
  fun_induction dropRepeats xs with
  | case1 => exact .nil
  | case2 x => exact List.pairwise_singleton _ x
  | case3 y rest ih => exact ih (List.pairwise_cons.mp sorted).2
  | case4 y z rest different ih =>
    obtain ⟨least, sorted⟩ := List.pairwise_cons.mp sorted
    refine List.pairwise_cons.mpr ⟨?_, ih sorted⟩
    have less : y < z := Std.lt_of_le_of_ne (least z List.mem_cons_self) different
    intro u member
    rcases List.mem_cons.mp (mem_dropRepeats.mp member) with rfl | behind
    · exact less
    · exact Std.lt_of_lt_of_le less ((List.pairwise_cons.mp sorted).1 u behind)

end Sorted

end NeighborGraph
