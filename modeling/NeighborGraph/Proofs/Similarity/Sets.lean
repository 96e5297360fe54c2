import NeighborGraph.Proofs.Similarity.Counts
import NeighborGraph.Similarity.Node

/-!
# Set metrics compare sets

A set metric works on ascending lists without repeats, which a column of long arrays is turned into
once.  `intersectionSize_eq` says that merging two such lists counts their common elements, so that
`jaccard` and `overlap` are quotients of numbers of elements of finite sets.

`set_metrics_compare_sets` is what that comes to for a column: arrays may be unsorted, hold repeats, be
empty or be absent, and only the sets of their values count.
-/

namespace NeighborGraph

namespace Sets

variable {a b : List Int64}

/-! ### The set of a list's elements -/

theorem mem_normalize {x : Int64} {values : List Int64} : x ∈ normalize values ↔ x ∈ values := by
  rw [normalize, mem_dropRepeats, List.mem_mergeSort]

theorem normalize_pairwise (values : List Int64) : (normalize values).Pairwise (· < ·) :=
  pairwise_dropRepeats (pairwise_sorted values)

theorem toFinset_normalize (values : List Int64) :
    (normalize values).toFinset = values.toFinset := by
  ext x
  simp [mem_normalize]

theorem length_eq_card (ascending : a.Pairwise (· < ·)) : a.length = a.toFinset.card :=
  (List.toFinset_card_of_nodup (ascending.imp Int64.ne_of_lt)).symm

theorem length_normalize (values : List Int64) :
    (normalize values).length = values.toFinset.card := by
  rw [length_eq_card (normalize_pairwise values), toFinset_normalize]

/-- There are no more than `2 ^ 64` longs. -/
theorem card_le (s : Finset Int64) : s.card ≤ 2 ^ 64 := by
  have inside : ∀ x ∈ s, x.toBitVec.toNat ∈ Finset.range (2 ^ 64) := by
    intro x _
    exact Finset.mem_range.mpr x.toBitVec.isLt
  have one_to_one : Set.InjOn (fun x : Int64 => x.toBitVec.toNat) s := by
    intro x _ y _ same
    exact Int64.toBitVec_inj.mp (BitVec.eq_of_toNat_eq same)
  simpa using Finset.card_le_card_of_injOn _ inside one_to_one

/-! ### Merging -/

theorem notMem_of_below {x : Int64} {ys : List Int64} (below : ∀ y ∈ ys, x < y) :
    x ∉ ys.toFinset :=
  fun member => Int64.lt_irrefl (below x (List.mem_toFinset.mp member))

/-- What is below the head of an ascending list is below all of it. -/
theorem below_of_lt_head {x y : Int64} {ys : List Int64} (ascending : (y :: ys).Pairwise (· < ·))
    (less : x < y) : ∀ z ∈ y :: ys, x < z := by
  intro z member
  rcases List.mem_cons.mp member with rfl | behind
  · exact less
  · exact Int64.lt_trans less ((List.pairwise_cons.mp ascending).1 z behind)

/-- Merging counts the common elements. -/
theorem intersectionSize_eq (ascending : a.Pairwise (· < ·)) (ascending' : b.Pairwise (· < ·)) :
    intersectionSize a b = (a.toFinset ∩ b.toFinset).card := by
  fun_induction intersectionSize a b with
  | case1 b => simp
  | case2 x xs => simp
  | case3 x xs y ys less ih =>
    have apart := notMem_of_below (below_of_lt_head ascending' less)
    rw [ih (List.pairwise_cons.mp ascending).2 ascending', List.toFinset_cons (l := xs),
      Finset.insert_inter_of_notMem apart]
  | case4 x xs y ys _ less ih =>
    have apart := notMem_of_below (below_of_lt_head ascending less)
    rw [ih ascending (List.pairwise_cons.mp ascending').2, List.toFinset_cons (l := ys),
      Finset.inter_insert_of_notMem apart]
  | case5 x xs y ys notLess notGreater ih =>
    obtain rfl : x = y := Int64.le_antisymm (Int64.not_lt.mp notGreater) (Int64.not_lt.mp notLess)
    have apart : x ∉ xs.toFinset ∩ ys.toFinset := fun member =>
      notMem_of_below (List.pairwise_cons.mp ascending).1 (Finset.mem_inter.mp member).1
    rw [ih (List.pairwise_cons.mp ascending).2 (List.pairwise_cons.mp ascending').2,
      List.toFinset_cons, List.toFinset_cons, ← Finset.insert_inter_distrib,
      Finset.card_insert_of_notMem apart]

/-- The elements of both lists are those of either and the common ones once more. -/
theorem union_add_intersectionSize (ascending : a.Pairwise (· < ·))
    (ascending' : b.Pairwise (· < ·)) :
    (a.toFinset ∪ b.toFinset).card + intersectionSize a b = a.length + b.length := by
  rw [intersectionSize_eq ascending ascending', Finset.card_union_add_card_inter,
    length_eq_card ascending, length_eq_card ascending']

/-! ### The metrics on sets -/

/-- Common elements over elements of either set; nothing for two empty sets. -/
def jaccardOf (s t : Finset Int64) : Option Float :=
  if s = ∅ ∧ t = ∅ then none
  else some (Float.ofNat (s ∩ t).card / Float.ofNat (s ∪ t).card)

/-- Common elements over elements of the smaller set; nothing for an empty set. -/
def overlapOf (s t : Finset Int64) : Option Float :=
  if s = ∅ ∨ t = ∅ then none
  else some (Float.ofNat (s ∩ t).card / Float.ofNat (min s.card t.card))

theorem jaccardOf_comm (s t : Finset Int64) : jaccardOf s t = jaccardOf t s := by
  simp only [jaccardOf, Finset.inter_comm s, Finset.union_comm s, and_comm]

theorem overlapOf_comm (s t : Finset Int64) : overlapOf s t = overlapOf t s := by
  simp only [overlapOf, Finset.inter_comm s, Nat.min_comm s.card, or_comm]

/-- A quotient of counts is dropped where there is nothing to divide by, and nowhere else. -/
theorem filter_ratio {count whole : Nat} (le : count ≤ whole) (small : whole ≤ 2 ^ 64) :
    (some (ratio count whole)).filter (!·.isNaN)
      = if whole = 0 then none else some (Float.ofNat count / Float.ofNat whole) := by
  by_cases zero : whole = 0
  · have nan : (ratio count whole).isNaN = true := by
      rw [ratio, if_pos zero]
      rfl
    rw [if_pos zero, Option.filter_some, nan]
    rfl
  · have number := Counts.isNaN_ratio (Nat.pos_of_ne_zero zero) le small
    rw [if_neg zero, Option.filter_some, number, ratio, if_neg zero]
    rfl

theorem filter_jaccard (values values' : List Int64) :
    (some (jaccard (normalize values) (normalize values'))).filter (!·.isNaN)
      = jaccardOf values.toFinset values'.toFinset := by
  have size := union_add_intersectionSize (normalize_pairwise values) (normalize_pairwise values')
  rw [jaccard, ← size, Nat.add_sub_cancel,
    intersectionSize_eq (normalize_pairwise values) (normalize_pairwise values'),
    toFinset_normalize, toFinset_normalize,
    filter_ratio (Finset.card_le_card Finset.inter_subset_union) (card_le _), jaccardOf]
  simp only [Finset.card_eq_zero, Finset.union_eq_empty]

theorem filter_overlap (values values' : List Int64) :
    (some (overlap (normalize values) (normalize values'))).filter (!·.isNaN)
      = overlapOf values.toFinset values'.toFinset := by
  have common : (values.toFinset ∩ values'.toFinset).card ≤
      min values.toFinset.card values'.toFinset.card :=
    Nat.le_min.mpr ⟨Finset.card_le_card Finset.inter_subset_left,
      Finset.card_le_card Finset.inter_subset_right⟩
  have small : min values.toFinset.card values'.toFinset.card ≤ 2 ^ 64 :=
    Nat.le_trans (Nat.min_le_left _ _) (card_le _)
  have empty : min values.toFinset.card values'.toFinset.card = 0 ↔
      values.toFinset = ∅ ∨ values'.toFinset = ∅ := by
    rw [Nat.min_eq_zero_iff, Finset.card_eq_zero, Finset.card_eq_zero]
  have counts : overlap (normalize values) (normalize values') =
      ratio (values.toFinset ∩ values'.toFinset).card
        (min values.toFinset.card values'.toFinset.card) := by
    rw [overlap, length_normalize, length_normalize,
      intersectionSize_eq (normalize_pairwise values) (normalize_pairwise values'),
      toFinset_normalize, toFinset_normalize]
    split
    next zero => rw [zero, ratio, ratio, if_pos rfl, if_pos rfl]
    next => rfl
  rw [counts, filter_ratio common small, overlapOf]
  simp only [empty]

/-! ### Columns of long arrays -/

/-- The set of a node's values, if the node has an array. -/
def valueSet (arrays : Array (Option (List Int64))) (node : Nat) : Option (Finset Int64) :=
  arrays[node]?.join.map List.toFinset

/-- A metric on sets, applied to the values of two nodes; nothing if one of them has no array. -/
def compareNodes (metric : Finset Int64 → Finset Int64 → Option Float)
    (arrays : Array (Option (List Int64))) (node node' : Nat) : Option Float :=
  match valueSet arrays node, valueSet arrays node' with
  | some s, some t => metric s t
  | _, _ => none

variable {arrays arrays' : Array (Option (List Int64))}

theorem compareNodes_comm {metric : Finset Int64 → Finset Int64 → Option Float}
    (comm : ∀ s t, metric s t = metric t s) (node node' : Nat) :
    compareNodes metric arrays node node' = compareNodes metric arrays node' node := by
  rw [compareNodes, compareNodes]
  cases valueSet arrays node with
  | none => cases valueSet arrays node' <;> rfl
  | some s =>
    cases valueSet arrays node' with
    | none => rfl
    | some t => exact comm s t

theorem compareNodes_congr {metric : Finset Int64 → Finset Int64 → Option Float}
    (same : ∀ node, valueSet arrays' node = valueSet arrays node) (node node' : Nat) :
    compareNodes metric arrays' node node' = compareNodes metric arrays node node' := by
  rw [compareNodes, same, same, compareNodes]

/-- The column a set metric works on. -/
def prepared (name : String) (arrays : Array (Option (List Int64))) (metric : Metric) :
    ColumnSimilarity where
  name := name
  column := .longArray (arrays.map (·.map normalize))
  metric := metric

theorem longArrayValue_prepared (name : String) (metric : Metric) (node : Nat) :
    (prepared name arrays metric).column.longArrayValue node
      = arrays[node]?.join.map normalize := by
  show (arrays.map (·.map normalize))[node]?.join = _
  rw [Array.getElem?_map]
  cases arrays[node]? <;> rfl

/-- A metric that compares lists as sets compares nodes by the sets of their values. -/
theorem similarity_prepared (name : String) (metric : Metric)
    (onSets : Finset Int64 → Finset Int64 → Option Float)
    (agrees : ∀ values values',
      (ColumnSimilarity.compareLongs metric (normalize values) (normalize values')).filter
          (!·.isNaN)
        = onSets values.toFinset values'.toFinset) (node node' : Nat) :
    (prepared name arrays metric).similarity node node'
      = compareNodes onSets arrays node node' := by
  show Option.filter (fun s : Float => !s.isNaN) (do
    let x ← (prepared name arrays metric).column.longArrayValue node
    let y ← (prepared name arrays metric).column.longArrayValue node'
    ColumnSimilarity.compareLongs metric x y) = _
  rw [longArrayValue_prepared, longArrayValue_prepared, compareNodes, valueSet, valueSet]
  cases arrays[node]?.join with
  | none => rfl
  | some values =>
    cases arrays[node']?.join with
    | none => rfl
    | some values' => exact agrees values values'

theorem similarity_jaccard (name : String) (arrays : Array (Option (List Int64)))
    (node node' : Nat) : (prepared name arrays .jaccard).similarity node node'
      = compareNodes jaccardOf arrays node node' :=
  similarity_prepared name .jaccard jaccardOf filter_jaccard node node'

theorem similarity_overlap (name : String) (arrays : Array (Option (List Int64)))
    (node node' : Nat) : (prepared name arrays .overlap).similarity node node'
      = compareNodes overlapOf arrays node node' :=
  similarity_prepared name .overlap overlapOf filter_overlap node node'

/-- Whatever set metric is asked for, there is a symmetric metric on sets behind it. -/
theorem exists_metric_on_sets {metric : Metric} (name : String)
    (asked : metric ∈ [Metric.standard, .jaccard, .overlap]) :
    ∃ (concrete : Metric) (onSets : Finset Int64 → Finset Int64 → Option Float),
      (∀ s t, onSets s t = onSets t s)
        ∧ ∀ arrays : Array (Option (List Int64)),
            ColumnSimilarity.of name (.longArray arrays) metric = .ok (prepared name arrays concrete)
              ∧ ∀ node node', (prepared name arrays concrete).similarity node node'
                  = compareNodes onSets arrays node node' := by
  simp only [List.mem_cons, List.not_mem_nil, or_false] at asked
  rcases asked with rfl | rfl | rfl
  · exact ⟨.jaccard, jaccardOf, jaccardOf_comm, fun arrays => ⟨rfl, similarity_jaccard name arrays⟩⟩
  · exact ⟨.jaccard, jaccardOf, jaccardOf_comm, fun arrays => ⟨rfl, similarity_jaccard name arrays⟩⟩
  · exact ⟨.overlap, overlapOf, overlapOf_comm, fun arrays => ⟨rfl, similarity_overlap name arrays⟩⟩

/-- On a column of long arrays the standard metric and the Jaccard metric divide the number of common
values by the number of all values, the overlap metric by the size of the smaller set; two nodes are
incomparable exactly if one of them has no array or there is nothing to divide by.  The similarity is
symmetric, and arrays with the same values, in another order or with other repeats, have the same
similarities. -/
theorem set_metrics_compare_sets (name : String) (arrays : Array (Option (List Int64))) :
    (∀ metric ∈ [Metric.standard, .jaccard], ∃ p,
        ColumnSimilarity.of name (.longArray arrays) metric = .ok p ∧ p.metric = .jaccard
          ∧ ∀ node node', p.similarity node node' = compareNodes jaccardOf arrays node node')
      ∧ (∃ p, ColumnSimilarity.of name (.longArray arrays) .overlap = .ok p ∧ p.metric = .overlap
          ∧ ∀ node node', p.similarity node node' = compareNodes overlapOf arrays node node')
      ∧ ∀ metric ∈ [Metric.standard, .jaccard, .overlap], ∀ p,
          ColumnSimilarity.of name (.longArray arrays) metric = .ok p →
            (∀ node node', p.similarity node node' = p.similarity node' node)
              ∧ ∀ arrays' p', (∀ node, valueSet arrays' node = valueSet arrays node) →
                  ColumnSimilarity.of name (.longArray arrays') metric = .ok p' →
                    ∀ node node', p'.similarity node node' = p.similarity node node' := by
  refine ⟨?_, ⟨prepared name arrays .overlap, rfl, rfl, similarity_overlap name arrays⟩, ?_⟩
  · intro metric asked
    simp only [List.mem_cons, List.not_mem_nil, or_false] at asked
    rcases asked with rfl | rfl
    · exact ⟨prepared name arrays .jaccard, rfl, rfl, similarity_jaccard name arrays⟩
    · exact ⟨prepared name arrays .jaccard, rfl, rfl, similarity_jaccard name arrays⟩
  · intro metric asked p resolved
    obtain ⟨concrete, onSets, comm, similarity⟩ := exists_metric_on_sets name asked
    obtain rfl : prepared name arrays concrete = p :=
      Except.ok.inj ((similarity arrays).1.symm.trans resolved)
    constructor
    · intro node node'
      rw [(similarity arrays).2, (similarity arrays).2, compareNodes_comm comm]
    · intro arrays' p' same resolved' node node'
      obtain rfl : prepared name arrays' concrete = p' :=
        Except.ok.inj ((similarity arrays').1.symm.trans resolved')
      rw [(similarity arrays').2, (similarity arrays).2, compareNodes_congr same]

/-- Two columns that hold the same sets, one of them with repeats and out of order. -/
theorem set_metrics_compare_sets_of_four :
    ∃ p p',
      ColumnSimilarity.of "tags" (.longArray #[some [3, 1, 2, 3], some [4, 3, 2], none, some []])
          .standard = .ok p
        ∧ ColumnSimilarity.of "tags"
            (.longArray #[some [1, 2, 3], some [2, 3, 3, 4], none, some []]) .standard = .ok p'
        ∧ p.similarity 0 1 = some (Float.ofNat 2 / Float.ofNat 4)
        ∧ p.similarity 1 0 = p.similarity 0 1 ∧ p'.similarity 0 1 = p.similarity 0 1
        ∧ p.similarity 0 2 = none ∧ p.similarity 3 3 = none := by
  obtain ⟨value, -, others⟩ :=
    set_metrics_compare_sets "tags" #[some [3, 1, 2, 3], some [4, 3, 2], none, some []]
  obtain ⟨p, resolved, -, value⟩ := value .standard (by decide)
  obtain ⟨symmetric, invariant⟩ := others .standard (by decide) p resolved
  refine ⟨p, _, resolved, rfl, ?_, symmetric 1 0, invariant _ _ ?_ rfl 0 1, ?_, ?_⟩
  · rw [value]
    decide
  · intro node
    match node with
    | 0 | 1 | 2 | 3 => decide
    | node + 4 => rfl
  · rw [value]
    decide
  · rw [value]
    decide

end Sets

end NeighborGraph
