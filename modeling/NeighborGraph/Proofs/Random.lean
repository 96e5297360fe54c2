import NeighborGraph.Proofs.Action
import NeighborGraph.Random.Sample

/-!
# Draws stay in range

Whatever a stream yields, a number drawn below a bound is below it (`below32_yields`,
`below64_yields`), a random order holds what it was given (`shuffle_yields`), and a sample holds
numbers below its length (`sample_yields`), in each of the three ways to draw one.
-/

namespace NeighborGraph.Random

open NeighborGraph.Action

/-! ### Numbers -/

theorem next32_yields : next32.Yields (· < Nat.pow 2 32) := by
  intro s w s' _ run
  rw [next32] at run
  cases run
  exact UInt32.toNat_lt _

theorem next64_yields : next64.Yields (· < Nat.pow 2 64) := by
  intro s w s' _ run
  rw [next64] at run
  cases run
  exact UInt64.toNat_lt _

/-- The high half of a product is below the factor. -/
theorem high_half_lt {w n word : Nat} (some : 0 < n) (h : word < Nat.pow 2 w) :
    word * n / Nat.pow 2 w < n :=
  Nat.div_lt_of_lt_mul (Nat.mul_lt_mul_of_pos_right h some)

theorem belowFrom_yields {width n : Nat} {next : Draw Nat} (some : 0 < n)
    (words : next.Yields (· < Nat.pow 2 width)) (more : Nat) :
    (belowFrom width n next more).Yields (· < n) := by
  induction more with
  | zero =>
    refine yields_bind words fun word small => ?_
    exact yields_pure (high_half_lt some small)
  | succ more ih =>
    refine yields_bind words fun word small => ?_
    exact ensures_ite (fun _ => yields_pure (high_half_lt some small)) fun _ => ih

theorem below32_yields (n : Nat) : (below32 n).Yields (· < n) := by
  rw [below32]
  refine ensures_ite (fun _ => ensures_fail) fun some => ?_
  exact belowFrom_yields (Nat.pos_of_ne_zero some) next32_yields _

theorem below64_yields (n : Nat) : (below64 n).Yields (· < n) := by
  rw [below64]
  refine ensures_ite (fun _ => ensures_fail) fun some => ?_
  exact belowFrom_yields (Nat.pos_of_ne_zero some) next64_yields _

/-! ### Orders -/

theorem perm_exchange (i j : Nat) (xs : Array Nat) : (exchange i j xs).Perm xs := by
  rw [exchange, Array.swapIfInBounds_def]
  split
  · split
    · exact Array.swap_perm ..
    · exact Array.Perm.refl xs
  · exact Array.Perm.refl xs

theorem shuffleFrom_yields {xs ys : Array Nat} (i : Nat) (perm : ys.Perm xs) :
    (shuffleFrom i ys).Yields fun zs => zs.Perm xs := by
  induction i generalizing ys with
  | zero => exact yields_pure perm
  | succ i ih =>
    exact yields_bind (below32_yields _) fun j _ => ih ((perm_exchange _ _ ys).trans perm)

/-- A random order is a permutation. -/
theorem shuffle_yields (xs : Array Nat) : (shuffle xs).Yields fun ys => ys.Perm xs := by
  rw [shuffle]
  refine ensures_ite (fun _ => yields_pure (Array.Perm.refl xs)) fun _ => ?_
  exact shuffleFrom_yields _ (Array.Perm.refl xs)

/-! ### Samples -/

/-- All numbers of a list are below a bound. -/
def Below (length : Nat) (xs : List Nat) : Prop := ∀ x ∈ xs, x < length

theorem below_nil (length : Nat) : Below length [] := fun _ member => absurd member List.not_mem_nil

theorem placeFrom_yields {length : Nat} {xs ys : Array Nat} (amount i : Nat) (perm : ys.Perm xs) :
    (placeFrom length amount i ys).Yields fun zs => zs.Perm xs := by
  induction amount generalizing i ys with
  | zero => exact yields_pure perm
  | succ amount ih =>
    exact yields_bind (below32_yields _) fun j _ => ih _ ((perm_exchange _ _ ys).trans perm)

theorem sampleInPlace_yields (length amount : Nat) :
    (sampleInPlace length amount).Yields (Below length) := by
  refine yields_bind (placeFrom_yields amount 0 (Array.Perm.refl _)) fun ys perm => ?_
  refine yields_pure ?_
  intro x member
  have inside : x ∈ ys := Array.mem_toList_iff.mp (List.mem_of_mem_take member)
  exact Array.mem_range.mp (perm.mem_iff.mp inside)

theorem mem_insertBefore {old new x : Nat} {xs : List Nat} (h : x ∈ insertBefore old new xs) :
    x = new ∨ x ∈ xs := by
  induction xs with
  | nil => exact .inr h
  | cons y rest ih =>
    rw [insertBefore] at h
    split at h
    · exact List.mem_cons.mp h
    · rcases List.mem_cons.mp h with rfl | h
      · exact .inr List.mem_cons_self
      · rcases ih h with new | inside
        · exact .inl new
        · exact .inr (List.mem_cons_of_mem _ inside)

theorem mem_enter {ordered : Bool} {j t x : Nat} {xs : List Nat} (h : x ∈ enter ordered j t xs) :
    x = j ∨ x = t ∨ x ∈ xs := by
  rw [enter] at h
  split at h
  · split at h
    · rcases mem_insertBefore h with bound | inside
      · exact .inl bound
      · exact .inr (.inr inside)
    · rcases List.mem_append.mp h with inside | last
      · exact .inr (.inr inside)
      · exact .inl (List.mem_singleton.mp last)
  · rcases List.mem_append.mp h with inside | last
    · exact .inr (.inr inside)
    · exact .inr (.inl (List.mem_singleton.mp last))

theorem enterFrom_yields {length : Nat} (ordered : Bool) {more j : Nat} {xs : List Nat}
    (left : j + more ≤ length) (small : Below length xs) :
    (enterFrom ordered more j xs).Yields (Below length) := by
  induction more generalizing j xs with
  | zero => exact yields_pure small
  | succ more ih =>
    refine yields_bind (below32_yields _) fun t below => ih (by omega) ?_
    intro x member
    rcases mem_enter member with rfl | rfl | inside
    · omega
    · omega
    · exact small x inside

theorem sampleByInsertion_yields {length amount : Nat} (enough : amount ≤ length) :
    (sampleByInsertion length amount).Yields (Below length) := by
  have all : length - amount + amount ≤ length := by omega
  refine yields_bind (enterFrom_yields _ all (below_nil length)) fun xs small => ?_
  refine ensures_ite (fun _ => yields_pure small) fun _ => ?_
  refine yields_bind (shuffle_yields xs.toArray) fun ys perm => yields_pure ?_
  intro x member
  have inside := perm.mem_iff.mp (Array.mem_toList_iff.mp member)
  exact small x (List.mem_toArray.mp inside)

theorem belowByRejection_yields {n : Nat} (some : 0 < n) (more : Nat) :
    (belowByRejection n more).Yields (· < n) := by
  induction more with
  | zero =>
    refine yields_bind next32_yields fun word small => ?_
    exact yields_pure (high_half_lt some small)
  | succ more ih =>
    refine yields_bind next32_yields fun word small => ?_
    exact ensures_ite (fun _ => yields_pure (high_half_lt some small)) fun _ => ih

theorem freshBelow_yields {n : Nat} (some : 0 < n) (xs : List Nat) (more : Nat) :
    (freshBelow n xs more).Yields (· < n) := by
  induction more with
  | zero =>
    refine yields_pure ?_
    cases found : (List.range n).find? fun x => !xs.contains x with
    | none => exact some
    | some x => exact List.mem_range.mp (List.mem_of_find?_eq_some found)
  | succ more ih =>
    refine yields_bind (belowByRejection_yields some _) fun x small => ?_
    exact ensures_ite (fun _ => ih) fun _ => yields_pure small

theorem rejectFrom_yields {length more : Nat} {xs : List Nat} (enough : more ≤ length)
    (small : Below length xs) : (rejectFrom length more xs).Yields (Below length) := by
  induction more generalizing xs with
  | zero => exact yields_pure small
  | succ more ih =>
    refine yields_bind (freshBelow_yields (by omega) xs _) fun x below => ih (by omega) ?_
    intro y member
    rcases List.mem_append.mp member with inside | last
    · exact small y inside
    · rw [List.mem_singleton.mp last]
      exact below

/-- A sample holds numbers below its length. -/
theorem sample_yields (length amount : Nat) : (sample length amount).Yields (Below length) := by
  rw [sample]
  refine ensures_ite (fun _ => ensures_fail) fun enough => ?_
  have enough : amount ≤ length := Nat.not_lt.mp enough
  split
  · exact sampleInPlace_yields length amount
  · exact sampleByInsertion_yields enough
  · exact rejectFrom_yields enough (below_nil length)

end NeighborGraph.Random
