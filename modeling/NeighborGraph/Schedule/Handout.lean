import NeighborGraph.Schedule.Tasks

/-!
# Handing out tasks

The workers of a run share its tasks through a queue of numbers (`Handout`).  A worker takes the next
number, runs the task in that slot and comes back for another one.  It leaves when no number is left, when
a failure was noted or when the run's signal stopped; a task that fails, or crashes, is noted and raises
that signal.  The number taken before leaving is lost, but so is the run.

`Handout.run` lets the workers take turns on one thread, where `Tasks.run` has a single loop.  The tasks
come back in their order, also those that nobody ran, unless a failure was noted.
-/

namespace NeighborGraph

/-- What the workers of a run share. -/
structure Handout (σ τ : Type) where
  /-- Numbers of the tasks that nobody has taken yet. -/
  queue : List Nat
  /-- The tasks by number, those that ran the way they came back. -/
  slots : Array τ
  /-- The first failure. -/
  failure : Option Fault := none
  /-- Numbers of the tasks that were started, latest first. -/
  started : List Nat := []
  state : σ

namespace Handout

variable {σ τ : Type}

/-- All tasks are still to be taken. -/
def ofTasks (tasks : List τ) (state : σ) : Handout σ τ where
  queue := List.range tasks.length
  slots := tasks.toArray
  state := state

/-- Workers of a run: as many as may work at a time, but not more than there are tasks; without a pool
the caller does the work. -/
def workerCount (concurrency : Nat) (pool : Option Workers) (tasks : Nat) : Nat :=
  match pool with
  | none => 1
  | some _ => min (max concurrency 1) tasks

/-- The tasks in their order, unless a failure was noted. -/
def result (h : Handout σ τ) : Checked (List τ) :=
  match h.failure with
  | some fault => .error fault
  | none => .ok h.slots.toList

variable [HasSignals σ]

/-- Notes a failure, unless there was one before, and raises the run's signal. -/
def note (signal : Nat) (fault : Fault) (h : Handout σ τ) : Handout σ τ :=
  { h with
    failure := some (h.failure.getD fault)
    state := HasSignals.withSignals ((HasSignals.signals h.state).raise signal) h.state }

/-- Runs the task in a slot. -/
def perform (signal : Nat) (work : τ → Action σ τ) (k : Nat) (h : Handout σ τ) : Handout σ τ :=
  match h.slots[k]? with
  | none => h.note signal (.crash (.indexOutOfRange k h.slots.size))
  | some task =>
    match work task h.state with
    | (.ok task, state) =>
      { h with slots := h.slots.setIfInBounds k task, started := k :: h.started, state }
    | (.error fault, state) =>
      { h with started := k :: h.started, state }.note signal (Tasks.failure fault)

/-- One worker takes numbers off a queue. -/
def serve (signal : Nat) (work : τ → Action σ τ) :
    (queue : List Nat) → Handout σ τ → Handout σ τ
  | [], h => { h with queue := [] }
  | k :: queue, h =>
    if h.failure.isSome then { h with queue }
    else if (HasSignals.signals h.state).running signal then
      serve signal work queue (h.perform signal work k)
    else { h with queue }.note signal .terminated

/-- The workers take turns. -/
def takeTurns (signal : Nat) (work : τ → Action σ τ) (workers : Nat) (h : Handout σ τ) :
    Handout σ τ :=
  Nat.repeat (fun h => h.serve signal work h.queue) workers h

/-- Runs tasks, each of which comes back changed; also what the workers shared in the end. -/
def run (concurrency : Nat) (pool : Option Workers) (signal : Nat) (work : τ → Action σ τ)
    (tasks : List τ) (s : σ) : Checked (List τ) × Handout σ τ :=
  let h := ofTasks tasks s
  if tasks.isEmpty then (.ok [], h)
  else
    match (HasSignals.signals s).assertRunning signal with
    | .error fault => (.error fault, h)
    | .ok () =>
      let h := h.takeTurns signal work (workerCount concurrency pool tasks.length)
      (h.result, h)

end Handout

end NeighborGraph
