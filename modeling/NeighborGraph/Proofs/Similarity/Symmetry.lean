import NeighborGraph.Descent.State
import NeighborGraph.Proofs.Similarity.Magnitude
import NeighborGraph.Similarity.Node

/-!
# Similarity is symmetric

Both nodes of a pair are offered each other with one and the same number, so the number must not depend
on which of them comes first.  `NodeSimilarity.similarity_symmetric` says that it does not, to the last
bit, for every graph and every list of properties that resolves: every metric goes through two vectors, or
two sets, position by position, and what it adds up or counts is the same the other way round.

The same theorem says when two nodes have no similarity: exactly if one of the properties cannot compare
them (`ColumnSimilarity.Incomparable`), whatever the other properties say.
-/

namespace NeighborGraph

/-! ### Vectors -/

namespace Vectors

theorem squaredDistance_comm (a b : List Float) : squaredDistance a b = squaredDistance b a := by
  rw [squaredDistance, squaredDistance, List.zipWith_comm]
  exact congrArg (fun step => sum (List.zipWith step b a))
    (funext₂ fun x y => Magnitude.sub_mul_self_comm y x)

theorem squaredDistance32_comm (a b : List Float32) :
    squaredDistance32 a b = squaredDistance32 b a := by
  rw [squaredDistance32, squaredDistance32, List.zipWith_comm]
  exact congrArg (fun step => (List.zipWith step b a).foldl (· + ·) (-0.0))
    (funext₂ fun x y => Magnitude.sub_mul_self_comm32 y x)

theorem euclidean_comm (a b : List Float) : euclidean a b = euclidean b a := by
  rw [euclidean, euclidean, squaredDistance_comm]

theorem euclidean32_comm (a b : List Float32) : euclidean32 a b = euclidean32 b a := by
  rw [euclidean32, euclidean32, squaredDistance32_comm]

/-- The products of the same two vectors the other way round. -/
def Products.swap (p : Products) : Products := { dot := p.dot, left := p.right, right := p.left }

theorem Products.add_swap (p : Products) (x y : Float) : (p.add x y).swap = p.swap.add y x := by
  simp only [Products.add, Products.swap, Magnitude.mul_comm x y]

theorem Products.cosine_swap (p : Products) : p.swap.cosine = p.cosine := by
  simp only [Products.cosine, Products.swap, Magnitude.mul_comm p.right p.left]

/-- The products of vectors whose entries are moved by `f` and by `g`. -/
theorem foldl_add_swap (f g : Float → Float) (pairs : List (Float × Float)) (p : Products) :
    (pairs.map Prod.swap).foldl (fun p (x, y) => p.add (g x) (f y)) p.swap
      = (pairs.foldl (fun p (x, y) => p.add (f x) (g y)) p).swap := by
  induction pairs generalizing p with
  | nil => rfl
  | cons pair rest ih =>
    simp only [List.map_cons, List.foldl_cons, Prod.swap]
    rw [← Products.add_swap, ih]

theorem cosine_comm (a b : List Float) : cosine a b = cosine b a := by
  have swapped := foldl_add_swap id id (a.zip b) {}
  rw [List.zip_swap] at swapped
  rw [cosine, cosine, ← Products.cosine_swap]
  exact congrArg Products.cosine swapped.symm

/-- The means divide by the number of entries of the first vector, which is that of the second one. -/
theorem pearson_comm {a b : List Float} (fit : a.length = b.length) :
    pearson a b = pearson b a := by
  have swapped := foldl_add_swap (· - mean a a.length) (· - mean b a.length) (a.zip b) {}
  rw [List.zip_swap] at swapped
  simp only [pearson, ← fit]
  split
  · rfl
  · rw [← Products.cosine_swap]
    exact congrArg Products.cosine swapped.symm

end Vectors

/-! ### Sets -/

namespace Sets

/-- Merging treats both lists alike, also lists that are no sets. -/
theorem intersectionSize_comm (a b : List Int64) : intersectionSize a b = intersectionSize b a := by
  fun_induction intersectionSize a b with
  | case1 b => cases b <;> simp [intersectionSize]
  | case2 x xs => simp [intersectionSize]
  | case3 x xs y ys less ih =>
    rw [intersectionSize, if_neg (Int64.lt_asymm less), if_pos less, ih]
  | case4 x xs y ys notLess less ih => rw [intersectionSize, if_pos less, ih]
  | case5 x xs y ys notLess notGreater ih =>
    rw [intersectionSize, if_neg notGreater, if_neg notLess, ih]

theorem jaccard_comm (a b : List Int64) : jaccard a b = jaccard b a := by
  simp only [jaccard, intersectionSize_comm a b, Nat.add_comm a.length]

theorem overlap_comm (a b : List Int64) : overlap a b = overlap b a := by
  simp only [overlap, intersectionSize_comm a b, Nat.min_comm a.length]

end Sets

/-! ### Columns -/

namespace Column

/-- Length of the array of a node of an array column. -/
def arrayLength (c : Column) (node : Nat) : Option Nat :=
  match c with
  | .longArray _ => (c.longArrayValue node).map List.length
  | .doubleArray _ => (c.doubleArrayValue node).map List.length
  | .floatArray _ => (c.floatArrayValue node).map List.length
  | _ => none

/-- Whether a node has no value. -/
def lacks (c : Column) (node : Nat) : Prop :=
  match c with
  | .long _ => c.longValue node = none
  | .double _ => c.doubleValue node = none
  | _ => c.arrayLength node = none

end Column

namespace ColumnSimilarity

/-- Whether long arrays are compared as sets, which may have different sizes. -/
def onSets (p : ColumnSimilarity) : Prop :=
  p.column.kind = .longArray ∧ (p.metric = .jaccard ∨ p.metric = .overlap)

/-- Why a column cannot compare two nodes. -/
inductive Incomparable (p : ColumnSimilarity) (a b : Nat) : Prop
  /-- One of the nodes has no value. -/
  | absent (h : p.column.lacks a ∨ p.column.lacks b)
  /-- The vectors have different lengths. -/
  | lengths (vectors : ¬p.onSets) (h : p.column.arrayLength a ≠ p.column.arrayLength b)
  /-- The vectors have no entries. -/
  | empty (vectors : ¬p.onSets) (h : p.column.arrayLength a = some 0)
  /-- The metric has no value for what the nodes have. -/
  | undefined (x : Float) (h : p.score a b = some x) (nan : x.isNaN = true)

/-- Two values are fetched and compared. -/
theorem bind_comm {α β : Type} {f : Nat → Option α} {compare : α → α → Option β}
    (comm : ∀ x y, compare x y = compare y x) (a b : Nat) :
    (do let x ← f a; let y ← f b; compare x y) = (do let x ← f b; let y ← f a; compare x y) := by
  cases f a <;> cases f b <;> first | rfl | exact comm _ _

theorem compareNumbers_comm (a b : Float) : compareNumbers a b = compareNumbers b a := by
  rw [compareNumbers, compareNumbers, Magnitude.abs_sub_comm]

/-- Vectors that fit one another fit the other way round. -/
theorem misfit_comm {α : Type} (a b : List α) :
    (a.length ≠ b.length ∨ a.isEmpty) ↔ (b.length ≠ a.length ∨ b.isEmpty) := by
  cases a <;> cases b <;> simp [eq_comm]

theorem compareVectors_comm (metric : Metric) (a b : List Float) :
    compareVectors metric a b = compareVectors metric b a := by
  simp only [compareVectors, misfit_comm a b]
  split
  · rfl
  next fit =>
    have fit : a.length = b.length := by
      rw [← misfit_comm] at fit
      exact Decidable.not_not.mp fun different => fit (.inl different)
    cases metric <;>
      simp only [Vectors.euclidean_comm a, Vectors.pearson_comm fit, Vectors.cosine_comm a]

theorem compareFloats_comm (metric : Metric) (a b : List Binary32) :
    compareFloats metric a b = compareFloats metric b a := by
  simp only [compareFloats, misfit_comm a b]
  split
  · rfl
  next fit =>
    have fit : (a.map (·.toFloat)).length = (b.map (·.toFloat)).length := by
      rw [← misfit_comm] at fit
      rw [List.length_map, List.length_map]
      exact Decidable.not_not.mp fun different => fit (.inl different)
    cases metric <;>
      simp only [Vectors.euclidean32_comm (a.map _), Vectors.pearson_comm fit,
        Vectors.cosine_comm (a.map _)]

theorem compareLongs_comm (metric : Metric) (a b : List Int64) :
    compareLongs metric a b = compareLongs metric b a := by
  cases metric <;>
    simp only [compareLongs, Sets.jaccard_comm a, Sets.overlap_comm a,
      compareVectors_comm _ (a.map _)]

theorem score_comm (p : ColumnSimilarity) (a b : Nat) : p.score a b = p.score b a := by
  rw [score, score]
  split
  · exact bind_comm (fun x y => congrArg some (compareNumbers_comm _ _)) a b
  · exact bind_comm (fun x y => congrArg some (compareNumbers_comm _ _)) a b
  · exact bind_comm (compareLongs_comm p.metric) a b
  · exact bind_comm (fun x y => compareVectors_comm p.metric _ _) a b
  · exact bind_comm (compareFloats_comm p.metric) a b

theorem similarity_comm (p : ColumnSimilarity) (a b : Nat) :
    p.similarity a b = p.similarity b a := by
  rw [similarity, similarity, score_comm]

theorem guarded_eq_none_iff {α : Type} {guard : Prop} [Decidable guard] {x : α} :
    (if guard then none else some x) = none ↔ guard := by
  by_cases holds : guard <;> simp [holds]

theorem isEmpty_iff_length {α : Type} (a : List α) : a.isEmpty ↔ a.length = 0 := by
  rw [List.isEmpty_iff, List.length_eq_zero_iff]

/-- Vectors are refused if they do not fit each other or have no entries. -/
theorem compareVectors_eq_none_iff (metric : Metric) (a b : List Float) :
    compareVectors metric a b = none ↔ a.length ≠ b.length ∨ a.length = 0 :=
  guarded_eq_none_iff.trans (or_congr_right (isEmpty_iff_length a))

theorem compareFloats_eq_none_iff (metric : Metric) (a b : List Binary32) :
    compareFloats metric a b = none ↔ a.length ≠ b.length ∨ a.length = 0 :=
  guarded_eq_none_iff.trans (or_congr_right (isEmpty_iff_length a))

theorem compareLongs_eq_none_iff (metric : Metric) (a b : List Int64) :
    compareLongs metric a b = none
      ↔ ¬(metric = .jaccard ∨ metric = .overlap) ∧ (a.length ≠ b.length ∨ a.length = 0) := by
  cases metric <;> simp [compareLongs, compareVectors_eq_none_iff]

/-- Two values that are fetched and compared come to nothing if one is missing or they do not compare. -/
theorem bind_eq_none_iff {α β : Type} {x y : Option α} {compare : α → α → Option β} :
    (do let x ← x; let y ← y; compare x y) = none
      ↔ (x = none ∨ y = none) ∨ ∃ u v, x = some u ∧ y = some v ∧ compare u v = none := by
  cases x <;> cases y <;> simp

/-- The score of two nodes with arrays is missing if an array is, or if they do not compare. -/
theorem arrays_eq_none_iff {α β : Type} {x y : Option (List α)}
    {compare : List α → List α → Option β} {vectors : Prop}
    (refuses : ∀ u v, compare u v = none ↔ vectors ∧ (u.length ≠ v.length ∨ u.length = 0)) :
    (do let x ← x; let y ← y; compare x y) = none
      ↔ (x.map List.length = none ∨ y.map List.length = none)
        ∨ vectors ∧ (x.map List.length ≠ y.map List.length ∨ x.map List.length = some 0) := by
  cases x <;> cases y <;> simp [refuses]

/-- A score is missing if a value is, or if vectors do not fit each other. -/
theorem score_eq_none_iff (p : ColumnSimilarity) (a b : Nat) :
    p.score a b = none
      ↔ (p.column.lacks a ∨ p.column.lacks b)
        ∨ ¬p.onSets ∧ (p.column.arrayLength a ≠ p.column.arrayLength b
            ∨ p.column.arrayLength a = some 0) := by
  obtain ⟨name, column, metric⟩ := p
  cases column with
  | long values =>
    simp only [score, bind_eq_none_iff, Column.lacks, Column.arrayLength]
    simp
  | double values =>
    simp only [score, bind_eq_none_iff, Column.lacks, Column.arrayLength]
    simp
  | longArray arrays =>
    refine (arrays_eq_none_iff (compareLongs_eq_none_iff metric)).trans ?_
    simp [onSets, Column.kind, Column.lacks, Column.arrayLength]
  | doubleArray arrays =>
    have refuses (u v : List Binary64) :
        compareVectors metric (u.map (·.toFloat)) (v.map (·.toFloat)) = none
          ↔ True ∧ (u.length ≠ v.length ∨ u.length = 0) := by
      simp [compareVectors_eq_none_iff]
    refine (arrays_eq_none_iff refuses).trans ?_
    simp [onSets, Column.kind, Column.lacks, Column.arrayLength]
  | floatArray arrays =>
    have refuses (u v : List Binary32) :
        compareFloats metric u v = none ↔ True ∧ (u.length ≠ v.length ∨ u.length = 0) := by
      simp [compareFloats_eq_none_iff]
    refine (arrays_eq_none_iff refuses).trans ?_
    simp [onSets, Column.kind, Column.lacks, Column.arrayLength]

/-- A column says nothing of two nodes exactly if it cannot compare them. -/
theorem similarity_eq_none_iff (p : ColumnSimilarity) (a b : Nat) :
    p.similarity a b = none ↔ p.Incomparable a b := by
  constructor
  · intro nothing
    cases scored : p.score a b with
    | some x =>
      rw [similarity, scored, Option.filter_some] at nothing
      refine .undefined x scored ?_
      cases nan : x.isNaN with
      | true => rfl
      | false =>
        rw [if_pos (by rw [nan]; rfl)] at nothing
        cases nothing
    | none =>
      rcases (p.score_eq_none_iff a b).mp scored with absent | ⟨vectors, lengths | empty⟩
      · exact .absent absent
      · exact .lengths vectors lengths
      · exact .empty vectors empty
  · intro incomparable
    have of_score (missing : p.score a b = none) : p.similarity a b = none := by
      rw [similarity, missing]
      rfl
    cases incomparable with
    | absent h => exact of_score ((p.score_eq_none_iff a b).mpr (.inl h))
    | lengths vectors h => exact of_score ((p.score_eq_none_iff a b).mpr (.inr ⟨vectors, .inl h⟩))
    | empty vectors h => exact of_score ((p.score_eq_none_iff a b).mpr (.inr ⟨vectors, .inr h⟩))
    | undefined x h nan =>
      rw [similarity, h, Option.filter_some, if_neg (by rw [nan]; exact Bool.false_ne_true)]

end ColumnSimilarity

/-! ### Several columns -/

namespace NodeSimilarity

theorem total_comm (a b : Nat) (properties : List ColumnSimilarity) (sum : Float) :
    total a b properties sum = total b a properties sum := by
  induction properties generalizing sum with
  | nil => rfl
  | cons p rest ih =>
    rw [total, total, p.similarity_comm]
    cases p.similarity b a with
    | none => rfl
    | some s => exact ih _

theorem similarity_comm (n : NodeSimilarity) (a b : Nat) : n.similarity a b = n.similarity b a := by
  rw [similarity, similarity]
  split
  · exact ColumnSimilarity.similarity_comm _ a b
  · rw [total_comm]

theorem total_eq_none_iff (a b : Nat) (properties : List ColumnSimilarity) (sum : Float) :
    total a b properties sum = none ↔ ∃ p ∈ properties, p.similarity a b = none := by
  induction properties generalizing sum with
  | nil => simp [total]
  | cons p rest ih =>
    rw [total, List.exists_mem_cons_iff]
    cases known : p.similarity a b with
    | none => simp
    | some s => simp [ih]

/-- Nodes have no similarity exactly if one of the columns cannot compare them. -/
theorem similarity_eq_none_iff (n : NodeSimilarity) (a b : Nat) :
    n.similarity a b = none ↔ ∃ p ∈ n.properties, p.Incomparable a b := by
  simp only [← ColumnSimilarity.similarity_eq_none_iff, similarity]
  split
  next p single => simp [single]
  next => rw [Option.map_eq_none_iff, total_eq_none_iff]

/-- A property for each specification, in order. -/
theorem forall₂_of_mapM {α β : Type} {f : α → Checked β} {items : List α} {results : List β}
    (resolved : items.mapM f = .ok results) :
    List.Forall₂ (fun item result => f item = .ok result) items results := by
  induction items generalizing results with
  | nil =>
    cases resolved
    exact .nil
  | cons item rest ih =>
    rw [List.mapM_cons] at resolved
    cases first : f item with
    | error fault =>
      rw [first] at resolved
      cases resolved
    | ok result =>
      cases others : rest.mapM f with
      | error fault =>
        rw [first, others] at resolved
        cases resolved
      | ok results' =>
        rw [first, others] at resolved
        cases resolved
        exact .cons first (ih others)

theorem properties_of_resolved {g : CompressedGraph} {specs : List PropertySpec}
    {n : NodeSimilarity} (resolved : of g specs = .ok n) :
    List.Forall₂ (fun spec p => ofSpec g spec = .ok p) specs n.properties := by
  rw [of] at resolved
  split at resolved
  · cases resolved
  · cases columns : specs.mapM (ofSpec g) with
    | error fault =>
      rw [columns] at resolved
      cases resolved
    | ok properties =>
      rw [columns] at resolved
      cases resolved
      exact forall₂_of_mapM columns

/-- For every graph and every list of properties that resolves, two nodes are as similar as they are the
other way round, to the last bit, and a run that compares them gets the same answer.  They have no
similarity exactly if one of the properties cannot compare them. -/
theorem similarity_symmetric {g : CompressedGraph} {specs : List PropertySpec} {n : NodeSimilarity}
    (resolved : of g specs = .ok n) :
    List.Forall₂ (fun spec p => ofSpec g spec = .ok p) specs n.properties
      ∧ ∀ a b, n.similarity a b = n.similarity b a
        ∧ (n.similarity a b = none ↔ ∃ p ∈ n.properties, p.Incomparable a b)
        ∧ ∀ d, (Descent.compare (.ofFunction n.similarity) a b d).1
              = .ok ((n.similarity a b).filter (!·.isNaN))
            ∧ (Descent.compare (.ofFunction n.similarity) b a d).1
              = (Descent.compare (.ofFunction n.similarity) a b d).1 := by
  refine ⟨properties_of_resolved resolved, fun a b => ?_⟩
  refine ⟨n.similarity_comm a b, n.similarity_eq_none_iff a b, fun d => ⟨rfl, ?_⟩⟩
  show Except.ok ((n.similarity b a).filter (!·.isNaN)) = _
  rw [n.similarity_comm b a]
  rfl

/-- Three nodes with a number and a vector each; the last one lacks the number and has a longer vector. -/
def mixedNodes : CompressedGraph :=
  { CompressedGraph.empty 3 with
    properties := ⟨[
      ("age", .long #[30, 34, Column.absentLong]),
      ("vector", .doubleArray #[some [.one, .one], some [.one, ⟨0⟩], some [.one, .one, .one]])]⟩ }

theorem similarity_symmetric_of_three :
    ∃ n, of mixedNodes [⟨"age", .standard⟩, ⟨"vector", .cosine⟩] = .ok n
      ∧ (n.similarity 0 1).isSome ∧ n.similarity 1 0 = n.similarity 0 1
      ∧ n.similarity 0 2 = none ∧ n.similarity 2 0 = none := by
  obtain ⟨n, resolved⟩ :
      ∃ n, of mixedNodes [⟨"age", .standard⟩, ⟨"vector", .cosine⟩] = .ok n := ⟨_, rfl⟩
  obtain ⟨-, symmetric⟩ := similarity_symmetric resolved
  cases resolved
  have incomparable := (symmetric 0 2).2.1.mpr
    ⟨_, List.mem_cons_self, .absent (.inr rfl)⟩
  refine ⟨_, rfl, by decide +kernel, (symmetric 1 0).1, incomparable, ?_⟩
  rw [(symmetric 2 0).1, incomparable]

end NodeSimilarity

end NeighborGraph
