import NeighborGraph.Proofs.Action

/-!
# What an action maintains

Nothing is rolled back when a step fails, so what is to be true of every state, also of the one a
failure leaves behind, must survive every step whatever comes of it.  `Action.Maintains` is the rule
for that: from a state with an invariant a run ends in a state with the invariant, and if it succeeds
something is known of the result, which later steps may rely on.
-/

namespace NeighborGraph

namespace Action

variable {σ τ α β : Type}

/-- Runs from a state with an invariant end in one, and results of those that succeed are known. -/
def Maintains (invariant : σ → Prop) (m : Action σ α) (result : α → Prop) : Prop :=
  ∀ s, invariant s → invariant (m s).2 ∧ ∀ a, (m s).1 = .ok a → result a

variable {invariant : σ → Prop} {result : α → Prop}

theorem maintains_pure {a : α} (h : result a) :
    (Pure.pure a : Action σ α).Maintains invariant result := by
  intro s kept
  refine ⟨kept, fun a' ok => ?_⟩
  cases ok
  exact h

theorem maintains_fail {fault : Fault} : (fail fault : Action σ α).Maintains invariant result :=
  fun _ kept => ⟨kept, fun _ ok => by cases ok⟩

theorem maintains_read {f : σ → α} (h : ∀ s, invariant s → result (f s)) :
    (read f).Maintains invariant result := by
  intro s kept
  refine ⟨kept, fun a ok => ?_⟩
  cases ok
  exact h s kept

theorem maintains_read_any (f : σ → α) : (read f).Maintains invariant fun _ => True :=
  maintains_read fun _ _ => trivial

theorem maintains_update {f : σ → σ} (h : ∀ s, invariant s → invariant (f s)) :
    (update f).Maintains invariant fun _ => True :=
  fun s kept => ⟨h s kept, fun _ _ => trivial⟩

theorem maintains_check {r : Checked α} (h : ∀ a, r = .ok a → result a) :
    (check r : Action σ α).Maintains invariant result :=
  fun _ kept => ⟨kept, h⟩

/-- One action after another; if the first fails, the second does not run. -/
theorem maintains_bind {m : Action σ β} {f : β → Action σ α} {R : β → Prop}
    (first : m.Maintains invariant R) (second : ∀ b, R b → (f b).Maintains invariant result) :
    (m >>= f).Maintains invariant result := by
  intro s kept
  obtain ⟨kept', known⟩ := first s kept
  have unfolds : (m >>= f) s = bind m f s := rfl
  rw [unfolds, bind]
  cases step : m s with
  | mk r t =>
    rw [step] at kept' known
    cases r with
    | error fault => exact ⟨kept', fun _ ok => by cases ok⟩
    | ok b => exact second b (known b rfl) t kept'

theorem maintains_discard {m : Action σ α} (h : m.Maintains invariant result) :
    (discard m : Action σ Unit).Maintains invariant fun _ => True :=
  maintains_bind (f := fun _ => Pure.pure ()) h fun _ _ => maintains_pure trivial

theorem maintains_ite {condition : Prop} [Decidable condition] {m n : Action σ α}
    (yes : condition → m.Maintains invariant result)
    (no : ¬condition → n.Maintains invariant result) :
    (if condition then m else n).Maintains invariant result := by
  by_cases h : condition
  · rw [if_pos h]
    exact yes h
  · rw [if_neg h]
    exact no h

/-- An action on a part of the state that the invariant does not depend on. -/
theorem maintains_zoom {get : σ → τ} {set : τ → σ → σ} {m : Action τ α} (yields : m.Yields result)
    (h : ∀ s t, invariant s → invariant (set t s)) :
    (zoom get set m).Maintains invariant result :=
  fun s kept => ⟨h s (m (get s)).2 kept,
    fun a ok => yields (get s) a (m (get s)).2 trivial (Prod.ext ok rfl)⟩

/-! ### Loops -/

theorem maintains_forEach {items : List β} {f : β → Action σ Unit}
    (each : ∀ b ∈ items, (f b).Maintains invariant fun _ => True) :
    (forEach items f).Maintains invariant fun _ => True := by
  induction items with
  | nil => exact maintains_pure trivial
  | cons b rest ih =>
    refine maintains_bind (m := f b) (each b List.mem_cons_self) fun _ _ => ?_
    exact ih fun c member => each c (List.mem_cons_of_mem _ member)

theorem maintains_repeatTimes {m : Action σ Unit} (each : m.Maintains invariant fun _ => True)
    (count : Nat) : (repeatTimes count m).Maintains invariant fun _ => True := by
  induction count with
  | zero => exact maintains_pure trivial
  | succ count ih => exact maintains_bind each fun _ _ => ih

theorem maintains_collect {items : List β} {f : β → Action σ α}
    (each : ∀ b ∈ items, (f b).Maintains invariant fun _ => True) :
    (collect items f).Maintains invariant fun _ => True := by
  induction items with
  | nil => exact maintains_pure trivial
  | cons b rest ih =>
    refine maintains_bind (m := f b) (each b List.mem_cons_self) fun a _ => ?_
    refine maintains_bind (m := collect rest f)
      (ih fun c member => each c (List.mem_cons_of_mem _ member)) fun as _ => ?_
    exact maintains_pure trivial

end Action

/-! ### Tasks -/

namespace Tasks

open NeighborGraph.Action

variable {σ τ : Type} [HasSignals σ] {invariant : σ → Prop}

theorem maintains_assertRunning (signal : Nat) :
    (assertRunning signal : Action σ Unit).Maintains invariant fun _ => True :=
  fun _ kept => ⟨kept, fun _ _ => trivial⟩

theorem maintains_poll (signal processed : Nat) :
    (poll signal processed : Action σ Unit).Maintains invariant fun _ => True :=
  fun _ kept => ⟨kept, fun _ _ => trivial⟩

theorem maintains_child (ignores : IgnoresSignals invariant) (signal : Nat) :
    (child signal : Action σ Nat).Maintains invariant fun _ => True :=
  fun s kept => ⟨ignores _ s kept, fun _ _ => trivial⟩

/-- Whoever raises a signal keeps what does not depend on signals. -/
theorem IgnoresSignals.raise (ignores : IgnoresSignals invariant) (signal : Nat) (s : σ)
    (kept : invariant s) :
    invariant (HasSignals.withSignals ((HasSignals.signals s).raise signal) s) :=
  ignores _ s kept

variable {signal : Nat}
  (raises : ∀ s, invariant s →
    invariant (HasSignals.withSignals ((HasSignals.signals s).raise signal) s))
include raises

/-- The guard of a task that fails raises a signal. -/
theorem maintains_start {task : Action σ τ}
    (h : task.Maintains invariant fun _ => True) :
    (start signal task).Maintains invariant fun _ => True := by
  have guarded : ((assertRunning signal : Action σ Unit) >>= fun _ => task).Maintains invariant
      fun _ => True := maintains_bind (maintains_assertRunning signal) fun _ _ => h
  intro s kept
  have starts : start signal task s
      = guard signal ((assertRunning signal : Action σ Unit) >>= fun _ => task) s := rfl
  obtain ⟨kept', -⟩ := guarded s kept
  refine ⟨?_, fun _ _ => trivial⟩
  rw [starts, guard]
  cases step : ((assertRunning signal : Action σ Unit) >>= fun _ => task) s with
  | mk r t =>
    rw [step] at kept'
    cases r with
    | error fault => exact raises t kept'
    | ok a => exact kept'

theorem maintains_run {tasks : List (Action σ τ)}
    (each : ∀ task ∈ tasks, task.Maintains invariant fun _ => True) :
    (run signal tasks).Maintains invariant fun _ => True := by
  rw [run]
  refine maintains_ite (fun _ => maintains_pure trivial) fun _ => ?_
  refine maintains_bind (m := assertRunning signal) (maintains_assertRunning signal) fun _ _ => ?_
  exact maintains_collect fun task member => maintains_start raises (each task member)

end Tasks

end NeighborGraph
