import NeighborGraph.Proofs.Action.Delivers
import NeighborGraph.Proofs.NumberLine
import NeighborGraph.Random.Sample

/-!
# Draws that always succeed

A draw fails for one of three reasons: there is no number below zero, no coin shows true with a
probability outside zero and one, and no sample is larger than what it is drawn from.  Otherwise it
succeeds whatever the stream (`below32_total`, `below64_total`, `coin_total`, `sample_total`).  Inside
the larger draws none of the three ever comes up.
-/

namespace NeighborGraph.Random

open NeighborGraph.Action

/-! ### Numbers and coins -/

theorem next32_total : next32.Total := fun _ _ => .inl ⟨_, _, rfl, trivial⟩

theorem next64_total : next64.Total := fun _ _ => .inl ⟨_, _, rfl, trivial⟩

theorem nextSeed_total : nextSeed.Total := fun _ _ => .inl ⟨_, _, rfl, trivial⟩

theorem belowFrom_total {next : Draw Nat} (words : next.Total) (width n more : Nat) :
    (belowFrom width n next more).Total := by
  induction more with
  | zero => exact total_then words fun word => total_pure _
  | succ more ih =>
    refine total_then words fun word => ?_
    exact delivers_ite (fun _ => total_pure _) fun _ => ih

theorem below32_total {n : Nat} (some : 0 < n) : (below32 n).Total := by
  rw [below32, if_neg (Nat.ne_of_gt some)]
  exact belowFrom_total next32_total _ _ _

theorem below64_total {n : Nat} (some : 0 < n) : (below64 n).Total := by
  rw [below64, if_neg (Nat.ne_of_gt some)]
  exact belowFrom_total next64_total _ _ _

/-- Certainty is not drawn; every other probability is less than one. -/
theorem coin_total {p : Float} (low : 0.0 ≤ p) (high : p ≤ 1.0) : (coin p).Total := by
  rw [coin]
  refine delivers_ite (fun _ => total_pure _) fun uncertain => ?_
  rw [if_pos ⟨low, NumberLine.lt_of_le_of_not_beq high uncertain⟩]
  exact total_then next64_total fun word => total_pure _

/-! ### Orders -/

theorem shuffleFrom_total (i : Nat) (xs : Array Nat) : (shuffleFrom i xs).Total := by
  induction i generalizing xs with
  | zero => exact total_pure xs
  | succ i ih => exact total_then (below32_total (Nat.succ_pos _)) fun j => ih _

theorem shuffle_total (xs : Array Nat) : (shuffle xs).Total := by
  rw [shuffle]
  exact delivers_ite (fun _ => total_pure xs) fun _ => shuffleFrom_total _ xs

/-! ### Samples -/

/-- There is a number left for every place that is filled. -/
theorem placeFrom_total {length amount i : Nat} (enough : i + amount ≤ length) (xs : Array Nat) :
    (placeFrom length amount i xs).Total := by
  induction amount generalizing i xs with
  | zero => exact total_pure xs
  | succ amount ih =>
    refine total_then (below32_total (by omega)) fun j => ?_
    exact ih (by omega) _

theorem sampleInPlace_total {length amount : Nat} (enough : amount ≤ length) :
    (sampleInPlace length amount).Total := by
  refine total_then (placeFrom_total ?_ _) fun xs => total_pure _
  rw [Nat.zero_add]
  exact enough

theorem enterFrom_total (ordered : Bool) (more j : Nat) (xs : List Nat) :
    (enterFrom ordered more j xs).Total := by
  induction more generalizing j xs with
  | zero => exact total_pure xs
  | succ more ih => exact total_then (below32_total (Nat.succ_pos j)) fun t => ih _ _

theorem sampleByInsertion_total (length amount : Nat) : (sampleByInsertion length amount).Total := by
  refine total_then (enterFrom_total _ _ _ _) fun xs => ?_
  refine delivers_ite (fun _ => total_pure xs) fun _ => ?_
  exact total_then (shuffle_total _) fun ys => total_pure _

theorem belowByRejection_total (n more : Nat) : (belowByRejection n more).Total := by
  induction more with
  | zero => exact total_then next32_total fun word => total_pure _
  | succ more ih =>
    refine total_then next32_total fun word => ?_
    exact delivers_ite (fun _ => total_pure _) fun _ => ih

theorem freshBelow_total (n : Nat) (xs : List Nat) (more : Nat) : (freshBelow n xs more).Total := by
  induction more with
  | zero => exact total_pure _
  | succ more ih =>
    refine total_then (belowByRejection_total n patience) fun x => ?_
    exact delivers_ite (fun _ => ih) fun _ => total_pure x

theorem rejectFrom_total (length more : Nat) (xs : List Nat) : (rejectFrom length more xs).Total := by
  induction more generalizing xs with
  | zero => exact total_pure xs
  | succ more ih => exact total_then (freshBelow_total length xs patience) fun x => ih _

/-- A sample that is no larger than what it is drawn from. -/
theorem sample_total {length amount : Nat} (enough : amount ≤ length) :
    (sample length amount).Total := by
  rw [sample, if_neg (Nat.not_lt.mpr enough)]
  split
  · exact sampleInPlace_total enough
  · exact sampleByInsertion_total length amount
  · exact rejectFrom_total length amount []

end NeighborGraph.Random
