import Mathlib.Data.List.Dedup
import NeighborGraph.Codec.Aggregation

/-!
# Aggregation answers target by target

The encoder sorts the relationships of a node and reduces runs of equal targets in one pass.
`Aggregation.answer` says what that amounts to, without a sort: the distinct targets in ascending
order, and for each what is kept of the properties of its parallel relationships, taken in the order
in which they were added.

`reducePairs_eq` and `reduce_eq` are the two equalities, with and without properties.  Both walk along
a sorted list and split off the run of its first target; that the sort is stable makes the order
within a run the order of insertion (`filter_mergeSort`).

`reducePairs_target_by_target` puts it together for a caller: the fold of the properties of each target
when parallel relationships are reduced (`Folds`), a stable sort when they are kept (`Sorts`), and the
same targets with properties as without.
-/

namespace NeighborGraph

namespace Aggregation

/-- The distinct targets of a list in ascending order. -/
def ascending (targets : List UInt64) : List UInt64 :=
  targets.dedup.mergeSort fun t u => decide (t ≤ u)

/-- The properties of the relationships to `target`, in the order in which they were added. -/
def parallel (target : UInt64) (pairs : List (UInt64 × Binary64)) : List Binary64 :=
  (pairs.filter fun p => decide (p.1 = target)).map (·.2)

/-- What is kept of the properties of parallel relationships. -/
def keep (a : Aggregation) : List Binary64 → List Binary64
  | [] => []
  | first :: rest =>
    if a.deduplicates then [rest.foldl a.merge (a.start first)] else first :: rest

/-- The final list of some relationships. -/
def answer (a : Aggregation) (pairs : List (UInt64 × Binary64)) : List (UInt64 × Binary64) :=
  (ascending (pairs.map (·.1))).flatMap fun t => (a.keep (parallel t pairs)).map (t, ·)

/-! ### Ascending targets -/

theorem mem_ascending {t : UInt64} {targets : List UInt64} :
    t ∈ ascending targets ↔ t ∈ targets := by
  rw [ascending, List.mem_mergeSort, List.mem_dedup]

theorem ascending_pairwise (targets : List UInt64) : (ascending targets).Pairwise (· < ·) := by
  have sorted := pairwise_sorted targets.dedup
  have distinct : (ascending targets).Pairwise (· ≠ ·) :=
    (List.mergeSort_perm _ _).nodup_iff.mpr (List.nodup_dedup targets)
  refine (sorted.and distinct).imp ?_
  intro t u h
  exact UInt64.lt_of_le_of_ne h.1 h.2

/-- Ascending lists with the same members are the same list. -/
theorem eq_ascending {targets ordered : List UInt64} (strict : ordered.Pairwise (· < ·))
    (same : ∀ t, t ∈ ordered ↔ t ∈ targets) : ordered = ascending targets := by
  have distinct : ordered.Nodup := strict.imp fun h => UInt64.ne_of_lt h
  have distinct' : (ascending targets).Nodup :=
    (ascending_pairwise targets).imp fun h => UInt64.ne_of_lt h
  have perm : ordered.Perm (ascending targets) := by
    rw [List.perm_ext_iff_of_nodup distinct distinct']
    intro t
    rw [same, mem_ascending]
  refine perm.eq_of_pairwise ?_ strict (ascending_pairwise targets)
  intro t u _ _ h h'
  exact absurd (UInt64.lt_trans h h') (UInt64.lt_irrefl t)

/-- The first target of a sorted list comes first, and once. -/
theorem ascending_cons {t : UInt64} {rest : List UInt64} (least : ∀ u ∈ rest, t ≤ u) :
    ascending (t :: rest) = t :: ascending (rest.filter fun u => decide (u ≠ t)) := by
  symm
  apply eq_ascending
  · refine List.pairwise_cons.mpr ⟨?_, ascending_pairwise _⟩
    intro u member
    rw [mem_ascending, List.mem_filter, decide_eq_true_eq] at member
    exact UInt64.lt_of_le_of_ne (least u member.1) (Ne.symm member.2)
  · intro u
    rw [List.mem_cons, List.mem_cons, mem_ascending, List.mem_filter, decide_eq_true_eq]
    by_cases same : u = t <;> simp [same]

/-! ### Runs of a sorted list -/

theorem parallel_cons_self (t : UInt64) (p : Binary64) (rest : List (UInt64 × Binary64)) :
    parallel t ((t, p) :: rest) = p :: parallel t rest := by
  rw [parallel, List.filter_cons_of_pos (by simp), List.map_cons, parallel]

theorem parallel_cons_ne {t u : UInt64} (h : u ≠ t) (p : Binary64)
    (rest : List (UInt64 × Binary64)) : parallel t ((u, p) :: rest) = parallel t rest := by
  rw [parallel, List.filter_cons_of_neg (by simpa using h), parallel]

/-- The relationships to other nodes than `t`. -/
def others (t : UInt64) (pairs : List (UInt64 × Binary64)) : List (UInt64 × Binary64) :=
  pairs.filter fun p => decide (p.1 ≠ t)

theorem parallel_others {t u : UInt64} (h : u ≠ t) (pairs : List (UInt64 × Binary64)) :
    parallel u (others t pairs) = parallel u pairs := by
  rw [parallel, others, List.filter_filter, parallel]
  congr 2
  funext p
  by_cases same : p.1 = u <;> simp [same, h]

theorem length_others_le (t : UInt64) (pairs : List (UInt64 × Binary64)) :
    (others t pairs).length ≤ pairs.length := List.length_filter_le ..

/-- The final list starts with what is kept of the first run and goes on with the other targets. -/
theorem answer_cons (a : Aggregation) {t : UInt64} (p : Binary64)
    {rest : List (UInt64 × Binary64)} (least : ∀ q ∈ rest, t ≤ q.1) :
    a.answer ((t, p) :: rest)
      = (a.keep (p :: parallel t rest)).map (t, ·) ++ a.answer (others t rest) := by
  have least' : ∀ u ∈ rest.map (·.1), t ≤ u := by
    intro u member
    obtain ⟨q, inside, rfl⟩ := List.mem_map.mp member
    exact least q inside
  have targets : (rest.map (·.1)).filter (fun u => decide (u ≠ t))
      = (others t rest).map (·.1) := by
    rw [List.filter_map, others]
    rfl
  rw [answer, List.map_cons, ascending_cons least', List.flatMap_cons, parallel_cons_self, targets,
    answer]
  congr 1
  apply List.flatMap_congr
  intro u member
  rw [mem_ascending] at member
  obtain ⟨q, inside, rfl⟩ := List.mem_map.mp member
  have other : q.1 ≠ t := of_decide_eq_true (List.mem_filter.mp inside).2
  rw [parallel_cons_ne (Ne.symm other), parallel_others other]

/-- Where every target lies above `t`, none is `t`. -/
theorem run_of_above {t : UInt64} {pairs : List (UInt64 × Binary64)}
    (above : ∀ q ∈ pairs, t < q.1) : parallel t pairs = [] ∧ others t pairs = pairs := by
  have away : ∀ q ∈ pairs, q.1 ≠ t := fun q member => Ne.symm (UInt64.ne_of_lt (above q member))
  constructor
  · rw [parallel, List.filter_eq_nil_iff.mpr, List.map_nil]
    intro q member
    simpa using away q member
  · apply List.filter_eq_self.mpr
    intro q member
    exact decide_eq_true (away q member)

/-- One pass over a sorted list folds the run of its first target. -/
theorem foldRuns_eq (a : Aggregation) {t : UInt64} (running : Binary64)
    {rest : List (UInt64 × Binary64)} (least : ∀ q ∈ rest, t ≤ q.1)
    (sorted : rest.Pairwise fun q r => q.1 ≤ r.1) :
    a.foldRuns t running rest
      = (t, (parallel t rest).foldl a.merge running) :: a.collapse (others t rest) := by
  induction rest generalizing running with
  | nil => rfl
  | cons q rest ih =>
    obtain ⟨u, p⟩ := q
    obtain ⟨above, sorted⟩ := List.pairwise_cons.mp sorted
    by_cases same : u = t
    · subst same
      rw [foldRuns, if_pos rfl, ih _ above sorted, parallel_cons_self, List.foldl_cons, others,
        others, List.filter_cons_of_neg (by simp)]
    · have less : t < u := UInt64.lt_of_le_of_ne (least _ List.mem_cons_self) (Ne.symm same)
      have behind : ∀ q ∈ (u, p) :: rest, t < q.1 := by
        intro q member
        rcases List.mem_cons.mp member with rfl | member
        · exact less
        · exact UInt64.lt_of_lt_of_le less (above q member)
      obtain ⟨none, all⟩ := run_of_above behind
      rw [foldRuns, if_neg same, none, all, List.foldl_nil, collapse]

/-- A sorted list is the run of its first target and the other targets behind it. -/
theorem run_append_others {t : UInt64} {rest : List (UInt64 × Binary64)}
    (least : ∀ q ∈ rest, t ≤ q.1) (sorted : rest.Pairwise fun q r => q.1 ≤ r.1) :
    (parallel t rest).map (t, ·) ++ others t rest = rest := by
  induction rest with
  | nil => rfl
  | cons q rest ih =>
    obtain ⟨u, p⟩ := q
    obtain ⟨above, sorted⟩ := List.pairwise_cons.mp sorted
    by_cases same : u = t
    · subst same
      rw [parallel_cons_self, others, List.filter_cons_of_neg (by simp), ← others, List.map_cons,
        List.cons_append, ih above sorted]
    · have less : t < u := UInt64.lt_of_le_of_ne (least _ List.mem_cons_self) (Ne.symm same)
      obtain ⟨none, all⟩ := run_of_above fun q member =>
        UInt64.lt_of_lt_of_le less (above q member)
      rw [parallel_cons_ne same, others, List.filter_cons_of_pos (by simpa using same), ← others,
        none, all, List.map_nil, List.nil_append]

/-! ### Lists with properties -/

/-- Pairs are compared by their targets. -/
theorem pairwise_sortedPairs (pairs : List (UInt64 × Binary64)) :
    (pairs.mergeSort fun p q => decide (p.1 ≤ q.1)).Pairwise fun p q => p.1 ≤ q.1 :=
  (List.pairwise_mergeSort (fun p q r => le_of_decide p.1 q.1 r.1)
    (fun p q => le_or_le p.1 q.1) pairs).imp of_decide_eq_true

/-- Sorting leaves the relationships to one target in their order. -/
theorem filter_mergeSort (t : UInt64) (pairs : List (UInt64 × Binary64)) :
    ((pairs.mergeSort fun p q => decide (p.1 ≤ q.1)).filter fun p => decide (p.1 = t))
      = pairs.filter fun p => decide (p.1 = t) := by
  have equal : (pairs.filter fun p => decide (p.1 = t)).Pairwise
      fun p q => decide (p.1 ≤ q.1) = true := by
    apply List.pairwise_of_forall_mem_list
    intro p hp q hq
    have same : p.1 = t := of_decide_eq_true (List.mem_filter.mp hp).2
    have same' : q.1 = t := of_decide_eq_true (List.mem_filter.mp hq).2
    rw [same, same']
    exact decide_eq_true (UInt64.le_refl t)
  have stays := List.sublist_mergeSort (fun p q r => le_of_decide p.1 q.1 r.1)
    (fun p q => le_or_le p.1 q.1) equal List.filter_sublist
  have inside := stays.filter fun p => decide (p.1 = t)
  have length : (pairs.filter fun p => decide (p.1 = t)).length
      = ((pairs.mergeSort fun p q => decide (p.1 ≤ q.1)).filter
          fun p => decide (p.1 = t)).length :=
    ((List.mergeSort_perm pairs _).filter _).length_eq.symm
  rw [List.filter_filter] at inside
  simp only [Bool.and_self] at inside
  exact (inside.eq_of_length length).symm

theorem parallel_mergeSort (t : UInt64) (pairs : List (UInt64 × Binary64)) :
    parallel t (pairs.mergeSort fun p q => decide (p.1 ≤ q.1)) = parallel t pairs := by
  rw [parallel, filter_mergeSort, parallel]

theorem answer_mergeSort (a : Aggregation) (pairs : List (UInt64 × Binary64)) :
    a.answer (pairs.mergeSort fun p q => decide (p.1 ≤ q.1)) = a.answer pairs := by
  have targets : ascending ((pairs.mergeSort fun p q => decide (p.1 ≤ q.1)).map (·.1))
      = ascending (pairs.map (·.1)) := by
    apply eq_ascending (ascending_pairwise _)
    intro t
    rw [mem_ascending]
    exact ((List.mergeSort_perm pairs _).map _).mem_iff
  simp only [answer, targets, parallel_mergeSort]

/-- Reducing a sorted list answers target by target. -/
theorem reduce_sorted (a : Aggregation) {pairs : List (UInt64 × Binary64)}
    (sorted : pairs.Pairwise fun q r => q.1 ≤ r.1) :
    (if a.deduplicates then a.collapse pairs else pairs) = a.answer pairs := by
  induction size : pairs.length using Nat.strongRecOn generalizing pairs with
  | ind n ih =>
    cases pairs with
    | nil =>
      have none : ascending [] = [] := List.mergeSort_nil
      rw [collapse, ite_self, answer, List.map_nil, none, List.flatMap_nil]
    | cons q rest =>
      obtain ⟨t, p⟩ := q
      obtain ⟨above, sorted⟩ := List.pairwise_cons.mp sorted
      have least : ∀ q ∈ rest, t ≤ q.1 := above
      have shorter : (others t rest).length < n := by
        have fewer := length_others_le t rest
        rw [List.length_cons] at size
        omega
      have behind : (others t rest).Pairwise fun q r => q.1 ≤ r.1 := sorted.filter _
      rw [answer_cons a p least, ← ih _ shorter behind rfl, keep]
      by_cases dedup : a.deduplicates = true
      · rw [if_pos dedup, if_pos dedup, if_pos dedup, collapse, foldRuns_eq a _ least sorted]
        rfl
      · rw [if_neg dedup, if_neg dedup, if_neg dedup, List.map_cons, List.cons_append,
          run_append_others least sorted]

/-- The list the encoder writes is the final list. -/
theorem reducePairs_eq (a : Aggregation) (pairs : List (UInt64 × Binary64)) :
    a.reducePairs pairs = a.answer pairs := by
  rw [reducePairs, reduce_sorted a (pairwise_sortedPairs pairs), answer_mergeSort]

/-! ### Lists without properties -/

theorem keep_of_dedup {a : Aggregation} (dedup : a.deduplicates = true)
    {properties : List Binary64} (some : properties ≠ []) :
    ∃ property, a.keep properties = [property] := by
  cases properties with
  | nil => exact absurd rfl some
  | cons first rest => exact ⟨_, if_pos dedup⟩

/-- A deduplicating aggregation leaves every target once. -/
theorem targets_answer_of_dedup {a : Aggregation} (dedup : a.deduplicates = true)
    (pairs : List (UInt64 × Binary64)) :
    (a.answer pairs).map (·.1) = ascending (pairs.map (·.1)) := by
  have one : ∀ t ∈ ascending (pairs.map (·.1)),
      ((a.keep (parallel t pairs)).map (t, ·)).map (·.1) = [t] := by
    intro t member
    obtain ⟨q, inside, rfl⟩ := List.mem_map.mp (mem_ascending.mp member)
    have some : parallel q.1 pairs ≠ [] := by
      refine List.ne_nil_of_mem (List.mem_map_of_mem (f := (·.2)) (a := q) ?_)
      exact List.mem_filter.mpr ⟨inside, decide_eq_true rfl⟩
    obtain ⟨property, kept⟩ := keep_of_dedup dedup some
    rw [kept]
    rfl
  rw [answer, List.map_flatMap, List.flatMap_congr one, List.flatMap_singleton']

/-- An aggregation that keeps every relationship sorts, and does nothing else. -/
theorem answer_of_not_dedup {a : Aggregation} (all : ¬a.deduplicates = true)
    (pairs : List (UInt64 × Binary64)) :
    a.answer pairs = pairs.mergeSort fun p q => decide (p.1 ≤ q.1) := by
  rw [← reducePairs_eq, reducePairs, if_neg all]

/-- Without properties the encoder writes the targets of the final list. -/
theorem reduce_eq (a : Aggregation) (pairs : List (UInt64 × Binary64)) :
    a.reduce (pairs.map (·.1)) = (a.answer pairs).map (·.1) := by
  by_cases dedup : a.deduplicates = true
  · rw [reduce, if_pos dedup, targets_answer_of_dedup dedup]
    apply eq_ascending (pairwise_dropRepeats (pairwise_sorted _))
    intro t
    rw [mem_dropRepeats, List.mem_mergeSort]
  · rw [reduce, if_neg dedup, answer_of_not_dedup dedup]
    symm
    apply List.map_mergeSort
    intro p _ q _
    rfl

/-- The final list is in ascending order of its targets. -/
theorem targets_answer_pairwise (a : Aggregation) (pairs : List (UInt64 × Binary64)) :
    ((a.answer pairs).map (·.1)).Pairwise (· ≤ ·) := by
  by_cases dedup : a.deduplicates = true
  · rw [targets_answer_of_dedup dedup]
    exact (ascending_pairwise _).imp UInt64.le_of_lt
  · rw [answer_of_not_dedup dedup]
    exact List.pairwise_map.mpr (pairwise_sortedPairs pairs)

/-- Aggregation only ever drops relationships. -/
theorem length_answer_le (a : Aggregation) (pairs : List (UInt64 × Binary64)) :
    (a.answer pairs).length ≤ pairs.length := by
  by_cases dedup : a.deduplicates = true
  · have distinct := (List.dedup_sublist (pairs.map (·.1))).length_le
    rw [← List.length_map (f := (·.1)), targets_answer_of_dedup dedup, ascending,
      List.length_mergeSort]
    rw [List.length_map] at distinct
    exact distinct
  · rw [answer_of_not_dedup dedup]
    exact Nat.le_of_eq (List.length_mergeSort pairs)

/-! ### Folds and sorts -/

/-- A final list with every target once: the targets that were added in strictly ascending order, and
with each the fold of its properties, taken in the order in which they were added. -/
structure Folds (a : Aggregation) (pairs final : List (UInt64 × Binary64)) : Prop where
  ascending : (final.map (·.1)).Pairwise (· < ·)
  targets : ∀ t, t ∈ final.map (·.1) ↔ t ∈ pairs.map (·.1)
  folded : ∀ t p, (t, p) ∈ final →
    ∃ first rest, parallel t pairs = first :: rest ∧ p = rest.foldl a.merge (a.start first)

/-- A final list with every relationship: all of them in ascending order of their targets, those with
the same target in the order in which they were added. -/
structure Sorts (pairs final : List (UInt64 × Binary64)) : Prop where
  ascending : (final.map (·.1)).Pairwise (· ≤ ·)
  perm : final.Perm pairs
  stable : ∀ t, (final.filter fun p => decide (p.1 = t)) = pairs.filter fun p => decide (p.1 = t)

/-- The number `more + 1`, counted up one by one. -/
def tally : (more : Nat) → Binary64
  | 0 => Binary64.one
  | more + 1 => (tally more).add Binary64.one

theorem deduplicates_eq_false_iff {a : Aggregation} :
    a.deduplicates = false ↔ a = .none ∨ a = .standard := by
  cases a <;> decide

theorem length_parallel (t : UInt64) (pairs : List (UInt64 × Binary64)) :
    (parallel t pairs).length = (pairs.map (·.1)).count t := by
  rw [parallel, List.length_map, ← List.countP_eq_length_filter, List.count, List.countP_map]
  rfl

theorem mem_answer {a : Aggregation} {t : UInt64} {p : Binary64}
    {pairs : List (UInt64 × Binary64)} (member : (t, p) ∈ a.answer pairs) :
    p ∈ a.keep (parallel t pairs) := by
  obtain ⟨u, -, kept⟩ := List.mem_flatMap.mp member
  obtain ⟨q, kept, same⟩ := List.mem_map.mp kept
  cases same
  exact kept

theorem folds_answer {a : Aggregation} (dedup : a.deduplicates = true)
    (pairs : List (UInt64 × Binary64)) : Folds a pairs (a.answer pairs) where
  ascending := by
    rw [targets_answer_of_dedup dedup]
    exact ascending_pairwise _
  targets t := by rw [targets_answer_of_dedup dedup, mem_ascending]
  folded t p member := by
    have kept := mem_answer member
    cases run : parallel t pairs with
    | nil =>
      rw [run, keep] at kept
      exact absurd kept List.not_mem_nil
    | cons first rest =>
      rw [run, keep, if_pos dedup] at kept
      exact ⟨first, rest, rfl, List.mem_singleton.mp kept⟩

theorem sorts_answer {a : Aggregation} (all : ¬a.deduplicates = true)
    (pairs : List (UInt64 × Binary64)) : Sorts pairs (a.answer pairs) where
  ascending := targets_answer_pairwise a pairs
  perm := by
    rw [answer_of_not_dedup all]
    exact List.mergeSort_perm pairs _
  stable t := by rw [answer_of_not_dedup all, filter_mergeSort]

theorem foldl_single (first : Binary64) (rest : List Binary64) :
    rest.foldl (merge .single) (start .single first) = first := by
  induction rest with
  | nil => rfl
  | cons next rest ih => exact ih

theorem foldl_count (first : Binary64) (rest : List Binary64) :
    rest.foldl (merge .count) (start .count first) = tally rest.length := by
  have onwards : ∀ more : Nat, rest.foldl (merge .count) (tally more)
      = tally (more + rest.length) := by
    induction rest with
    | nil => exact fun more => rfl
    | cons next rest ih =>
      intro more
      have counted : more + 1 + rest.length = more + (rest.length + 1) := by omega
      rw [List.foldl_cons, List.length_cons, ← counted]
      exact ih (more + 1)
  rw [← Nat.zero_add rest.length]
  exact onwards 0

/-- Reducing pairs is the fold of each target's properties, or a stable sort when the aggregation keeps
every relationship, and leaves the targets that reducing them alone leaves. -/
theorem reducePairs_target_by_target (a : Aggregation) (pairs : List (UInt64 × Binary64)) :
    (a.reducePairs pairs).map (·.1) = a.reduce (pairs.map (·.1))
      ∧ (a.deduplicates = true → Folds a pairs (a.reducePairs pairs))
      ∧ (a.deduplicates = false → Sorts pairs (a.reducePairs pairs))
      ∧ (a.deduplicates = false ↔ a = .none ∨ a = .standard)
      ∧ (a = .single → ∀ t p, (t, p) ∈ a.reducePairs pairs →
          (parallel t pairs).head? = some p)
      ∧ (a = .count → ∀ t p, (t, p) ∈ a.reducePairs pairs →
          ∃ more, (pairs.map (·.1)).count t = more + 1 ∧ p = tally more) := by
  rw [reducePairs_eq, reduce_eq]
  refine ⟨rfl, fun dedup => folds_answer dedup pairs, fun all => ?_, deduplicates_eq_false_iff, ?_,
    ?_⟩
  · exact sorts_answer (ne_true_of_eq_false all) pairs
  · rintro rfl t p member
    obtain ⟨first, rest, run, folded⟩ := (folds_answer rfl pairs).folded t p member
    rw [run, List.head?_cons, folded, foldl_single]
  · rintro rfl t p member
    obtain ⟨first, rest, run, folded⟩ := (folds_answer rfl pairs).folded t p member
    refine ⟨rest.length, ?_, ?_⟩
    · rw [← length_parallel, run, List.length_cons]
    · rw [folded, foldl_count]

end Aggregation

end NeighborGraph
