import NeighborGraph.Fault

/-!
# Signals — cooperative cancellation

A signal is *running* until it is raised.  A child signal stops with its parent, while raising the
child leaves the parent running.  `Signals` holds every signal of a program; a signal is known by
its number, and two holders of one number share the signal.

A parent has a smaller number than its children, so following parents ends.
-/

namespace NeighborGraph

/-- One signal. -/
structure Signal where
  raised : Bool := false
  parent : Option Nat := none
deriving DecidableEq, Repr, Inhabited

/-- All signals, by number. -/
structure Signals where
  cells : Array Signal := #[]
deriving DecidableEq, Repr, Inhabited

namespace Signals

/-- Nodes a long loop may process between two looks at its signal. -/
def pollInterval : Nat := 10000

/-- A new signal of its own, and its number. -/
def root (s : Signals) : Signals × Nat := (⟨s.cells.push {}⟩, s.cells.size)

/-- A new signal below another one, and its number. -/
def child (s : Signals) (parent : Nat) : Signals × Nat :=
  (⟨s.cells.push { parent := some parent }⟩, s.cells.size)

/-- Raises a signal. -/
def raise (s : Signals) (k : Nat) : Signals := ⟨s.cells.modify k fun c => { c with raised := true }⟩

/-- Whether neither the signal nor one above it is raised. -/
def running (s : Signals) (k : Nat) : Bool :=
  match s.cells[k]? with
  | none => true
  | some cell =>
    !cell.raised &&
      match cell.parent with
      | none => true
      | some parent => if parent < k then s.running parent else true
termination_by k

/-- Fails unless a signal is running. -/
def assertRunning (s : Signals) (k : Nat) : Checked Unit :=
  if s.running k then .ok () else .error .terminated

/-- Looks at a signal every so many processed nodes. -/
def poll (s : Signals) (k processed : Nat) : Checked Unit :=
  if processed % pollInterval = 0 then s.assertRunning k else .ok ()

end Signals

end NeighborGraph
