import NeighborGraph.Proofs.Action.Delivers
import NeighborGraph.Proofs.Schedule.Ranges

/-!
# How far a loop has come

A loop over consecutive nodes has come to the node before which it stands, and what is true there may
depend on that node: `progress k` is what is true once the nodes before `k` are done.  If every node leads
from its own `progress` to that of the next one, a loop leads from the `progress` of its first node to that
of the node after its last one.

Tasks on ranges that follow one another (`NodeRange.Tiling`) are one such loop, cut into pieces.
-/

namespace NeighborGraph

namespace Action

variable {σ : Type} {progress : Nat → σ → Prop} {f : Nat → Action σ Unit}

theorem ensures_forEach_range' (size : Nat) {first : Nat}
    (each : ∀ k, first ≤ k → k < first + size → (f k).Ensures (progress k) fun _ => progress (k + 1)) :
    (forEach (List.range' first size) f).Ensures (progress first) fun _ => progress (first + size) := by
  induction size generalizing first with
  | zero => exact ensures_pure fun _ known => known
  | succ size ih =>
    have rest := @ih (first + 1) fun k low high => each k (by omega) (by omega)
    rw [Nat.add_right_comm] at rest
    rw [List.range'_succ]
    exact ensures_bind (m := f first) (each first (Nat.le_refl _) (by omega)) fun _ => rest

theorem delivers_forEach_range' {excuse : Fault → σ → Prop} (size : Nat) {first : Nat}
    (each : ∀ k, first ≤ k → k < first + size →
      (f k).Delivers (progress k) (fun _ => progress (k + 1)) excuse) :
    (forEach (List.range' first size) f).Delivers (progress first)
      (fun _ => progress (first + size)) excuse := by
  induction size generalizing first with
  | zero => exact delivers_pure fun _ known => known
  | succ size ih =>
    have rest := @ih (first + 1) fun k low high => each k (by omega) (by omega)
    rw [Nat.add_right_comm] at rest
    rw [List.range'_succ]
    exact delivers_bind (m := f first) (each first (Nat.le_refl _) (by omega)) fun _ => rest

end Action

namespace Tasks

open NeighborGraph.Action

variable {σ τ β : Type} [HasSignals σ] {progress : Nat → σ → Prop}

/-- Tasks on ranges that follow one another lead from the first node to the node after the last one. -/
theorem ensures_run_tiling {place : β → NodeRange} {task : β → Action σ τ} {items : List β}
    {first last : Nat} (tiling : NodeRange.Tiling first last (items.map place))
    (each : ∀ b ∈ items,
      (task b).Ensures (progress (place b).start) fun _ => progress (place b).stop) (signal : Nat) :
    (run signal (items.map task)).Ensures (progress first) fun _ => progress last := by
  have all : (runAll signal (items.map task)).Ensures (progress first) fun _ => progress last := by
    induction items generalizing first with
    | nil =>
      cases tiling
      exact ensures_pure fun _ known => known
    | cons b rest ih =>
      cases tiling with
      | next some behind =>
        refine ensures_bind (m := start signal (task b))
          (ensures_start (each b List.mem_cons_self)) fun a => ?_
        refine ensures_bind (m := runAll signal (rest.map task))
          (ih behind fun c member => each c (List.mem_cons_of_mem _ member)) fun as => ?_
        exact ensures_pure fun _ known => known
  cases items with
  | nil => exact all
  | cons b rest => exact ensures_bind (m := assertRunning signal) (ensures_assertRunning signal) fun _ => all

end Tasks

end NeighborGraph
