import NeighborGraph.Proofs.Action.Delivers

/-!
# Tasks stop with the signal of the run

A signal that stopped never runs again, whatever is raised later (`Signals.running_raise`).  So a run of
tasks has one excuse to fail, and it lasts: the signal of the run does not run (`Tasks.Stopped`).

Tasks look at a child of that signal.  The child has no other reason to stop as long as nobody raises
it, that is, as long as the tasks raise only signals that were there before it (`Signals.Follows`).
-/

namespace NeighborGraph

namespace Signals

theorem getElem?_raise (s : Signals) (j k : Nat) :
    (s.raise j).cells[k]?
      = if j = k then s.cells[k]?.map (fun c => { c with raised := true }) else s.cells[k]? :=
  Array.getElem?_modify

/-- No signal runs again because another one is raised. -/
theorem running_raise {s : Signals} {k : Nat} (stopped : s.running k = false) (j : Nat) :
    (s.raise j).running k = false := by
  induction k using Nat.strongRecOn with
  | ind k ih =>
    rw [running] at stopped
    rw [running, getElem?_raise]
    cases found : s.cells[k]? with
    | none => simp [found] at stopped
    | some cell =>
      by_cases same : j = k
      · simp [same]
      · rw [if_neg same]
        simp only [found] at stopped ⊢
        cases raised : cell.raised with
        | true => rfl
        | false =>
          cases above : cell.parent with
          | none => simp [raised, above] at stopped
          | some parent =>
            by_cases order : parent < k
            · simp only [raised, above, order, if_true, Bool.not_false, Bool.true_and] at stopped ⊢
              exact ih parent order stopped
            · simp [raised, above, order] at stopped

theorem size_raise (s : Signals) (k : Nat) : (s.raise k).cells.size = s.cells.size :=
  Array.size_modify

/-- A known signal that was raised does not run. -/
theorem running_raise_self {s : Signals} {k : Nat} (known : k < s.cells.size) :
    (s.raise k).running k = false := by
  rw [running, getElem?_raise, if_pos rfl, Array.getElem?_eq_getElem known]
  rfl

/-- Whether a signal runs depends on the signals up to it. -/
theorem running_congr {s t : Signals} {k : Nat} (same : ∀ j ≤ k, s.cells[j]? = t.cells[j]?) :
    s.running k = t.running k := by
  induction k using Nat.strongRecOn with
  | ind k ih =>
    rw [running, running, same k (Nat.le_refl k)]
    cases t.cells[k]? with
    | none => rfl
    | some cell =>
      cases above : cell.parent with
      | none => simp only [above]
      | some parent =>
        simp only [above]
        by_cases order : parent < k
        · rw [if_pos order, if_pos order, ih parent order fun j bound => same j (by omega)]
        · rw [if_neg order, if_neg order]

/-- A look at a signal is passed, or it fails because the signal does not run. -/
theorem poll_cases (s : Signals) (k processed : Nat) :
    s.poll k processed = .ok () ∨ s.poll k processed = .error .terminated ∧ s.running k = false := by
  rw [poll, assertRunning]
  split
  · cases s.running k with
    | true => exact .inl rfl
    | false => exact .inr ⟨rfl, rfl⟩
  · exact .inl rfl

/-- A signal that runs as long as another one: the other one itself, or a child of it that is newer than
all known signals and was not raised. -/
structure Follows (known signal below : Nat) (s : Signals) : Prop where
  inside : signal < known
  known_le : known ≤ s.cells.size
  below : below = signal ∨ known ≤ below ∧ s.cells[below]? = some { parent := some signal }

namespace Follows

variable {known signal below : Nat} {s : Signals}

theorem self (inside : signal < known) (known_le : known ≤ s.cells.size) :
    s.Follows known signal signal := ⟨inside, known_le, .inl rfl⟩

theorem running (h : s.Follows known signal below) : s.running below = s.running signal := by
  rcases h.below with rfl | ⟨new, child⟩
  · rfl
  · have order : signal < below := Nat.lt_of_lt_of_le h.inside new
    rw [Signals.running, child]
    simp [order]

/-- Raising a known signal leaves the child of the run's signal alone. -/
theorem raise (h : s.Follows known signal below) {k : Nat} (old : k < known) :
    (s.raise k).Follows known signal below := by
  refine ⟨h.inside, ?_, h.below.imp_right fun ⟨new, child⟩ => ⟨new, ?_⟩⟩
  · show known ≤ (s.cells.modify _ _).size
    rw [Array.size_modify]
    exact h.known_le
  · rw [getElem?_raise, if_neg (by omega)]
    exact child

/-- A new child follows. -/
theorem child (h : s.Follows known signal below) :
    (s.child signal).1.Follows known signal s.cells.size := by
  refine ⟨h.inside, ?_, .inr ⟨h.known_le, ?_⟩⟩
  · show known ≤ (s.cells.push _).size
    rw [Array.size_push]
    exact Nat.le_succ_of_le h.known_le
  · show (s.cells.push _)[s.cells.size]? = _
    rw [Array.getElem?_push_size]

end Follows

theorem getElem?_child {s : Signals} {parent k : Nat} (old : k < s.cells.size) :
    (s.child parent).1.cells[k]? = s.cells[k]? := by
  rw [child, Array.getElem?_push_lt old, Array.getElem?_eq_getElem old]

/-- A new child leaves older signals alone. -/
theorem running_child_of_lt {s : Signals} {parent k : Nat} (old : k < s.cells.size) :
    (s.child parent).1.running k = s.running k :=
  running_congr fun _ below => getElem?_child (Nat.lt_of_le_of_lt below old)

/-- A new child runs if its parent does. -/
theorem running_child_self {s : Signals} {parent : Nat} (known : parent < s.cells.size) :
    (s.child parent).1.running s.cells.size = s.running parent :=
  (Follows.self known (Nat.le_refl _)).child.running.trans (running_child_of_lt known)

end Signals

/-- Signals that are put into a state are the signals of the state. -/
class LawfulSignals (σ : Type) [HasSignals σ] : Prop where
  signals_withSignals : ∀ (signals : Signals) (s : σ),
    HasSignals.signals (HasSignals.withSignals signals s) = signals

namespace Tasks

open NeighborGraph.Action

variable {σ τ : Type} [HasSignals σ] {invariant before : σ → Prop} {after : τ → σ → Prop}
  {known signal below : Nat}

/-- The excuse of a run: its signal does not run. -/
def Stopped (signal : Nat) (fault : Fault) (s : σ) : Prop :=
  fault = .terminated ∧ (HasSignals.signals s).running signal = false

/-- Every state with a property has signals of which one follows another. -/
abbrev Following (known signal below : Nat) (before : σ → Prop) : Prop :=
  ∀ s, before s → (HasSignals.signals s).Follows known signal below

theorem delivers_assertRunning (follows : Following known signal below invariant) :
    (assertRunning below : Action σ Unit).Delivers invariant (fun _ => invariant)
      (Stopped signal) := by
  intro s start
  have same := (follows s start).running
  rw [assertRunning, Signals.assertRunning, same]
  cases runs : (HasSignals.signals s).running signal with
  | true => exact .inl ⟨(), s, rfl, start⟩
  | false => exact .inr ⟨.terminated, s, rfl, rfl, runs⟩

theorem delivers_poll (follows : Following known signal below invariant) (processed : Nat) :
    (poll below processed : Action σ Unit).Delivers invariant (fun _ => invariant)
      (Stopped signal) := by
  intro s start
  rcases (HasSignals.signals s).poll_cases below processed with passed | ⟨failed, stopped⟩
  · exact .inl ⟨(), s, Prod.ext passed rfl, start⟩
  · exact .inr ⟨.terminated, s, Prod.ext failed rfl, rfl, (follows s start).running ▸ stopped⟩

theorem delivers_child {excuse : Fault → σ → Prop} {after : Nat → σ → Prop}
    (h : ∀ s, before s → after (HasSignals.signals s).cells.size
      (HasSignals.withSignals ((HasSignals.signals s).child signal).1 s)) :
    (child signal).Delivers before after excuse :=
  fun s start => .inl ⟨_, _, rfl, h s start⟩

/-- The guard of a task raises a signal only after the run's signal stopped. -/
theorem delivers_start [LawfulSignals σ] {task : Action σ τ}
    (follows : Following known signal below before)
    (h : task.Delivers before after (Stopped signal)) :
    (start below task).Delivers before after (Stopped signal) := by
  have guarded : ((assertRunning below : Action σ Unit) >>= fun _ => task).Delivers before after
      (Stopped signal) := delivers_bind (delivers_assertRunning follows) fun _ => h
  intro s begins
  have starts : start below task s
      = guard below ((assertRunning below : Action σ Unit) >>= fun _ => task) s := rfl
  rcases guarded s begins with ⟨a, s', run, known⟩ | ⟨fault, s', run, rfl, stopped⟩
  · refine .inl ⟨a, s', ?_, known⟩
    rw [starts, guard, run]
  · let raised : σ := HasSignals.withSignals ((HasSignals.signals s').raise below) s'
    have same : HasSignals.signals raised = (HasSignals.signals s').raise below :=
      LawfulSignals.signals_withSignals _ _
    refine .inr ⟨.terminated, raised, ?_, rfl, ?_⟩
    · rw [starts, guard, run]
      rfl
    · rw [same]
      exact Signals.running_raise stopped below

/-- A run of tasks stops with the signal of the run if every task does. -/
theorem delivers_run [LawfulSignals σ] {tasks : List (Action σ τ)}
    (follows : Following known signal below invariant)
    (each : ∀ task ∈ tasks, task.Delivers invariant (fun _ => invariant) (Stopped signal)) :
    (run below tasks).Delivers invariant (fun _ => invariant) (Stopped signal) := by
  rw [run]
  refine delivers_ite (fun _ => delivers_pure fun _ kept => kept) fun _ => ?_
  refine delivers_bind (m := assertRunning below) (delivers_assertRunning follows) fun _ => ?_
  exact delivers_collect fun task member => delivers_start follows (each task member)

end Tasks

end NeighborGraph
