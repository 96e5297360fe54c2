import NeighborGraph.Fault

/-!
# Actions — computations on a state that outlives a failure

An `Action` takes a state to a result and a state.  The state after a failure is the one the
failing step left behind: nothing is rolled back.  A failing step ends the whole action.

`Action.zoom` runs an action on a part of a larger state.
-/

namespace NeighborGraph

/-- A computation on a state `σ` that yields an `α` or a fault. -/
def Action (σ α : Type) : Type := σ → Checked α × σ

namespace Action

variable {σ τ α β : Type}

/-- Runs an action on a state. -/
def run (m : Action σ α) (s : σ) : Checked α × σ := m s

/-- Yields a value and leaves the state alone. -/
@[inline] def pure (a : α) : Action σ α := fun s => (.ok a, s)

/-- Runs one action after another; a fault ends both. -/
@[inline] def bind (m : Action σ α) (f : α → Action σ β) : Action σ β := fun s =>
  match m s with
  | (.ok a, s) => f a s
  | (.error fault, s) => (.error fault, s)

instance : Monad (Action σ) where
  pure := pure
  bind := bind

/-- Fails and leaves the state alone. -/
@[inline] def fail (fault : Fault) : Action σ α := fun s => (.error fault, s)

/-- Yields the state. -/
@[inline] def state : Action σ σ := fun s => (.ok s, s)

/-- Reads off the state. -/
@[inline] def read (f : σ → α) : Action σ α := fun s => (.ok (f s), s)

/-- Changes the state. -/
@[inline] def update (f : σ → σ) : Action σ Unit := fun s => (.ok (), f s)

/-- Yields what a check yields. -/
@[inline] def check (r : Checked α) : Action σ α := fun s => (r, s)

/-- Runs an action on the part of a state that `get` picks and `set` puts back. -/
@[inline] def zoom (get : σ → τ) (set : τ → σ → σ) (m : Action τ α) : Action σ α := fun s =>
  match m (get s) with
  | (r, t) => (r, set t s)

/-- Runs an action for every item of a list, in order. -/
def forEach (items : List β) (f : β → Action σ Unit) : Action σ Unit :=
  match items with
  | [] => pure ()
  | b :: rest => bind (f b) fun _ => forEach rest f

/-- Runs an action a number of times. -/
def repeatTimes : (count : Nat) → Action σ Unit → Action σ Unit
  | 0, _ => pure ()
  | count + 1, m => bind m fun _ => repeatTimes count m

/-- Runs an action for every item of a list and collects the results. -/
def collect (items : List β) (f : β → Action σ α) : Action σ (List α) :=
  match items with
  | [] => pure []
  | b :: rest => bind (f b) fun a => bind (collect rest f) fun as => pure (a :: as)

end Action

end NeighborGraph
