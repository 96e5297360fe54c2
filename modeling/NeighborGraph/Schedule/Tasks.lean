import NeighborGraph.Action
import NeighborGraph.Fault.Message
import NeighborGraph.Schedule.Ranges
import NeighborGraph.Schedule.Signals

/-!
# Tasks — all of them, or the first failure

`Tasks.run` takes tasks one after the other.  Before each it looks at the run's signal, and a task
that fails, or crashes, raises that signal; either way no later task starts and the run fails with
that one cause.  A run of no tasks succeeds without a look at the signal.

A run under a child of the caller's signal leaves the caller's signal alone.
-/

namespace NeighborGraph

/-- A state that holds signals. -/
class HasSignals (σ : Type) where
  signals : σ → Signals
  withSignals : Signals → σ → σ

namespace Tasks

variable {σ τ : Type} [HasSignals σ]

/-- Fails unless a signal is running. -/
def assertRunning (signal : Nat) : Action σ Unit := fun s =>
  ((HasSignals.signals s).assertRunning signal, s)

/-- Looks at a signal every so many processed nodes. -/
def poll (signal processed : Nat) : Action σ Unit := fun s =>
  ((HasSignals.signals s).poll signal processed, s)

/-- Raises a signal. -/
def raise (signal : Nat) : Action σ Unit :=
  Action.update fun s => HasSignals.withSignals ((HasSignals.signals s).raise signal) s

/-- A new signal below another one. -/
def child (signal : Nat) : Action σ Nat := fun s =>
  let (signals, k) := (HasSignals.signals s).child signal
  (.ok k, HasSignals.withSignals signals s)

/-- The fault a run reports for a task's fault: a crash is the failure of the task. -/
def failure : Fault → Fault
  | .crash cause => .taskFailed cause.message
  | fault => fault

/-- Runs a task; if it fails, the run's signal is raised. -/
def guard (signal : Nat) (task : Action σ τ) : Action σ τ := fun s =>
  match task s with
  | (.ok a, s) => (.ok a, s)
  | (.error fault, s) =>
    (.error (failure fault),
      HasSignals.withSignals ((HasSignals.signals s).raise signal) s)

/-- Starts a task if the run's signal is running; otherwise it is raised, too. -/
def start (signal : Nat) (task : Action σ τ) : Action σ τ :=
  guard signal (Action.bind (assertRunning signal) fun _ => task)

/-- Runs tasks in order. -/
def runAll (signal : Nat) (tasks : List (Action σ τ)) : Action σ (List τ) :=
  Action.collect tasks (start signal)

/-- Runs tasks under a signal and yields their results in order. -/
def run (signal : Nat) (tasks : List (Action σ τ)) : Action σ (List τ) :=
  if tasks.isEmpty then pure []
  else Action.bind (assertRunning signal) fun _ => runAll signal tasks

/-- Runs a task for every range of nodes, under a child of the caller's signal. -/
def overRanges (concurrency nodeCount minBatch signal : Nat)
    (task : NodeRange → Action σ Unit) : Action σ Unit := do
  let below ← child signal
  let _ ← run below ((NodeRange.tiles concurrency nodeCount minBatch).map task)
  return ()

end Tasks

/-! ### Workers -/

/-- The workers of a run. -/
structure Workers where
  count : Nat
deriving DecidableEq, Repr

namespace Workers

/-- At least one worker. -/
def of (count : Nat) : Checked Workers :=
  if count = 0 then .error (.invalidConfig .noThreads) else .ok ⟨count⟩

/-- One line that describes the workers. -/
def description (w : Workers) : String := "Executor \x7b threads: " ++ toString w.count ++ " \x7d"

end Workers

end NeighborGraph
