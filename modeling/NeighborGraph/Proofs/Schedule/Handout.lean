import NeighborGraph.Proofs.Schedule.Tasks
import NeighborGraph.Schedule.Handout

/-!
# Handed out tasks all run, or the first failure is reported

A handout that nothing went wrong with is described by the number of tasks done (`Handout.Ready`): those
ran one after the other, in order, and nothing else happened.  The next number either moves the handout
on by one or settles it: the signal of the run stopped, or the task fails.  So a run ends at the first
task that it stops at (`Handout.FirstStop`), or with the queue.  A settled handout changes no more, however
many workers still come for a number.

What the tasks do to the signals is theirs; the run adds at most that its own signal is raised.  A signal
above it is left as the tasks leave it.
-/

namespace NeighborGraph

namespace Signals

/-- Signals are a state of their own. -/
instance : HasSignals Signals where
  signals signals := signals
  withSignals signals _ := signals

instance : LawfulSignals Signals := ⟨fun _ _ => rfl⟩

end Signals

namespace Handout

variable {σ τ : Type} {work : τ → Action σ τ} {tasks : List τ} {s : σ} {k : Nat}
  {h : Handout σ τ}

/-- The state when a task has its turn, if those before it run one after the other. -/
def stateBefore (work : τ → Action σ τ) (tasks : List τ) (s : σ) (k : Nat) : σ :=
  (tasks.take k).foldl (fun s task => (work task s).2) s

theorem stateBefore_succ {task : τ} (there : tasks[k]? = some task) :
    stateBefore work tasks s (k + 1) = (work task (stateBefore work tasks s k)).2 := by
  rw [stateBefore, List.take_add_one, there, Option.toList_some, List.foldl_append]
  rfl

/-- What a state and every task keep is true whenever a task has its turn. -/
theorem stateBefore_induct (kept : σ → Prop) (start : kept s)
    (keeps : ∀ task ∈ tasks, ∀ s, kept s → kept (work task s).2) (k : Nat) :
    kept (stateBefore work tasks s k) := by
  induction k with
  | zero => exact start
  | succ k ih =>
    cases there : tasks[k]? with
    | none =>
      rw [stateBefore, List.take_add_one, there, Option.toList_none, List.append_nil]
      exact ih
    | some task =>
      rw [stateBefore_succ there]
      exact keeps task (List.mem_of_getElem? there) _ ih

/-! ### What a run yields -/

theorem result_failed {fault : Fault} (failure : h.failure = some fault) :
    h.result = .error fault := by
  rw [result, failure]

theorem result_unfailed (unfailed : h.failure = none) : h.result = .ok h.slots.toList := by
  rw [result, unfailed]

/-- The numbers that are left do not matter. -/
theorem result_withQueue (queue : List Nat) : ({ h with queue } : Handout σ τ).result = h.result := rfl

/-! ### A handout after some tasks -/

/-- The tasks before `k` ran one after the other, the others did not start. -/
structure Ready (work : τ → Action σ τ) (tasks : List τ) (s : σ) (k : Nat) (h : Handout σ τ) :
    Prop where
  unfailed : h.failure = none
  started : h.started.reverse = List.range k
  state : h.state = stateBefore work tasks s k
  size : h.slots.size = tasks.length
  done : ∀ j < k, ∀ task, tasks[j]? = some task →
    ∃ came, h.slots[j]? = some came ∧ (work task (stateBefore work tasks s j)).1 = .ok came
  left : ∀ j, k ≤ j → h.slots[j]? = tasks[j]?

theorem ready_ofTasks (work : τ → Action σ τ) (tasks : List τ) (s : σ) :
    Ready work tasks s 0 (ofTasks tasks s) where
  unfailed := rfl
  started := rfl
  state := rfl
  size := List.size_toArray
  done := fun _ bound => absurd bound (Nat.not_lt_zero _)
  left := fun _ _ => List.getElem?_toArray

namespace Ready

/-- The numbers that are left do not matter. -/
theorem withQueue (ready : Ready work tasks s k h) (queue : List Nat) :
    Ready work tasks s k { h with queue } :=
  ⟨ready.unfailed, ready.started, ready.state, ready.size, ready.done, ready.left⟩

theorem length_started (ready : Ready work tasks s k h) : h.started.length = k := by
  rw [← List.length_reverse, ready.started, List.length_range]

variable [HasSignals σ] {signal : Nat} {task : τ}

/-- A task that succeeds moves the handout on. -/
theorem perform {came : τ} (ready : Ready work tasks s k h) (there : tasks[k]? = some task)
    (succeeds : (work task (stateBefore work tasks s k)).1 = .ok came) :
    Ready work tasks s (k + 1) (h.perform signal work k) := by
  have slot : h.slots[k]? = some task := (ready.left k (Nat.le_refl k)).trans there
  have inside : k < h.slots.size := (Array.getElem?_eq_some_iff.mp slot).1
  have step : work task h.state = (.ok came, stateBefore work tasks s (k + 1)) := by
    rw [ready.state, stateBefore_succ there]
    exact Prod.ext succeeds rfl
  have performed : h.perform signal work k
      = { h with
          slots := h.slots.setIfInBounds k came
          started := k :: h.started
          state := stateBefore work tasks s (k + 1) } := by
    rw [Handout.perform, slot]
    simp only [step]
  rw [performed]
  refine ⟨ready.unfailed, ?_, rfl, ?_, ?_, ?_⟩
  · rw [List.reverse_cons, ready.started, List.range_succ]
  · rw [Array.size_setIfInBounds]
    exact ready.size
  · intro j bound other thereOther
    by_cases same : k = j
    · subst same
      cases there.symm.trans thereOther
      exact ⟨came, Array.getElem?_setIfInBounds_self_of_lt inside, succeeds⟩
    · rw [Array.getElem?_setIfInBounds_ne same]
      exact ready.done j (by omega) other thereOther
  · intro j bound
    rw [Array.getElem?_setIfInBounds_ne (by omega)]
    exact ready.left j (by omega)

/-- A task that fails is noted. -/
theorem perform_failing {fault : Fault} (ready : Ready work tasks s k h)
    (there : tasks[k]? = some task)
    (fails : (work task (stateBefore work tasks s k)).1 = .error fault) :
    h.perform signal work k
      = { h with started := k :: h.started, state := stateBefore work tasks s (k + 1) }.note signal
          (Tasks.failure fault) := by
  have slot : h.slots[k]? = some task := (ready.left k (Nat.le_refl k)).trans there
  have step : work task h.state = (.error fault, stateBefore work tasks s (k + 1)) := by
    rw [ready.state, stateBefore_succ there]
    exact Prod.ext fails rfl
  rw [Handout.perform, slot]
  simp only [step]

end Ready

/-! ### The task a run stops at -/

variable [HasSignals σ] {signal i : Nat}

/-- A run stops at a task if the signal does not run when the task has its turn, or if it fails. -/
def Stops (signal : Nat) (work : τ → Action σ τ) (tasks : List τ) (s : σ) (i : Nat) : Prop :=
  ∃ task, tasks[i]? = some task ∧
    ((HasSignals.signals (stateBefore work tasks s i)).running signal = false ∨
      ∃ fault, (work task (stateBefore work tasks s i)).1 = .error fault)

/-- The first task that a run stops at. -/
def FirstStop (signal : Nat) (work : τ → Action σ τ) (tasks : List τ) (s : σ) (i : Nat) : Prop :=
  Stops signal work tasks s i ∧ ∀ j < i, ¬Stops signal work tasks s j

/-- The signal runs before a task that a run does not stop at, and the task succeeds. -/
theorem passes_of_not_stops {task : τ} (there : tasks[k]? = some task)
    (passes : ¬Stops signal work tasks s k) :
    (HasSignals.signals (stateBefore work tasks s k)).running signal = true ∧
      ∃ came, (work task (stateBefore work tasks s k)).1 = .ok came := by
  refine ⟨?_, ?_⟩
  · cases runs : (HasSignals.signals (stateBefore work tasks s k)).running signal with
    | true => rfl
    | false => exact absurd ⟨task, there, .inl runs⟩ passes
  · cases result : (work task (stateBefore work tasks s k)).1 with
    | ok came => exact ⟨came, rfl⟩
    | error fault => exact absurd ⟨task, there, .inr ⟨fault, result⟩⟩ passes

/-- Why a run stops at a task, by the fault it reports and the tasks that started. -/
inductive Reason (signal : Nat) (work : τ → Action σ τ) (tasks : List τ) (s : σ) (i : Nat) :
    Fault → (started : List Nat) → Prop
  /-- The signal does not run, and the task does not start. -/
  | stopped
      (stopped : (HasSignals.signals (stateBefore work tasks s i)).running signal = false) :
      Reason signal work tasks s i .terminated (List.range i)
  /-- The task starts and fails. -/
  | failed {task : τ} {fault : Fault} (there : tasks[i]? = some task)
      (runs : (HasSignals.signals (stateBefore work tasks s i)).running signal = true)
      (fails : (work task (stateBefore work tasks s i)).1 = .error fault) :
      Reason signal work tasks s i (Tasks.failure fault) (List.range (i + 1))

/-- A failure was noted for its reason, and the signal was raised. -/
structure Settled (signal : Nat) (work : τ → Action σ τ) (tasks : List τ) (s : σ) (i : Nat)
    (fault : Fault) (h : Handout σ τ) : Prop where
  failure : h.failure = some fault
  reason : Reason signal work tasks s i fault h.started.reverse
  state : h.state = ((Tasks.raise signal).run (stateBefore work tasks s h.started.length)).2

/-- The signal stops before a task. -/
theorem Ready.settled_stopped (ready : Ready work tasks s k h) (queue : List Nat)
    (stopped : (HasSignals.signals (stateBefore work tasks s k)).running signal = false) :
    Settled signal work tasks s k .terminated ({ h with queue }.note signal .terminated) where
  failure := by
    show some (h.failure.getD _) = _
    rw [ready.unfailed]
    rfl
  reason := by
    show Reason signal work tasks s k .terminated h.started.reverse
    rw [ready.started]
    exact .stopped stopped
  state := by
    show ((Tasks.raise signal).run h.state).2
      = ((Tasks.raise signal).run (stateBefore work tasks s h.started.length)).2
    rw [ready.state, ready.length_started]

/-- A task fails. -/
theorem Ready.settled_failed {task : τ} {fault : Fault} (ready : Ready work tasks s k h)
    (there : tasks[k]? = some task)
    (runs : (HasSignals.signals (stateBefore work tasks s k)).running signal = true)
    (fails : (work task (stateBefore work tasks s k)).1 = .error fault) :
    Settled signal work tasks s k (Tasks.failure fault) (h.perform signal work k) := by
  rw [ready.perform_failing there fails]
  refine ⟨?_, ?_, ?_⟩
  · show some (h.failure.getD _) = _
    rw [ready.unfailed]
    rfl
  · show Reason signal work tasks s k _ (k :: h.started).reverse
    rw [List.reverse_cons, ready.started, ← List.range_succ]
    exact .failed there runs fails
  · show ((Tasks.raise signal).run (stateBefore work tasks s (k + 1))).2
      = ((Tasks.raise signal).run (stateBefore work tasks s (h.started.length + 1))).2
    rw [ready.length_started]

/-! ### What workers do -/

/-- Once a failure was noted, or no number is left, a worker only takes a number. -/
theorem serve_idle {queue : List Nat} (idle : h.failure.isSome = true ∨ queue = []) :
    serve signal work queue h = { h with queue := queue.tail } := by
  cases queue with
  | nil => rfl
  | cons k queue =>
    have failed : h.failure.isSome = true := idle.resolve_right (List.cons_ne_nil _ _)
    rw [serve, if_pos failed]
    rfl

/-- A worker runs the next task if the signal runs. -/
theorem serve_running {queue : List Nat} (ready : Ready work tasks s k h)
    (runs : (HasSignals.signals (stateBefore work tasks s k)).running signal = true) :
    serve signal work (k :: queue) h = serve signal work queue (h.perform signal work k) := by
  have unfailed : ¬h.failure.isSome = true := by
    rw [ready.unfailed]
    exact Bool.false_ne_true
  rw [← ready.state] at runs
  rw [serve, if_neg unfailed, if_pos runs]

/-- A worker notes that the signal stopped. -/
theorem serve_stopped {queue : List Nat} (ready : Ready work tasks s k h)
    (stopped : (HasSignals.signals (stateBefore work tasks s k)).running signal = false) :
    serve signal work (k :: queue) h = { h with queue }.note signal .terminated := by
  have unfailed : ¬h.failure.isSome = true := by
    rw [ready.unfailed]
    exact Bool.false_ne_true
  rw [← ready.state] at stopped
  have notRunning : ¬(HasSignals.signals h.state).running signal = true := by
    rw [stopped]
    exact Bool.false_ne_true
  rw [serve, if_neg unfailed, if_neg notRunning]

/-- A worker that meets no task to stop at runs them all. -/
theorem serve_all {count : Nat} (ready : Ready work tasks s k h) (total : k + count = tasks.length)
    (passes : ∀ j, k ≤ j → ¬Stops signal work tasks s j) :
    Ready work tasks s tasks.length (serve signal work (List.range' k count) h) := by
  induction count generalizing k h with
  | zero =>
    rw [Nat.add_zero] at total
    exact total ▸ ready.withQueue []
  | succ count ih =>
    have inside : k < tasks.length := by omega
    have there : tasks[k]? = some tasks[k] := List.getElem?_eq_getElem inside
    obtain ⟨runs, came, succeeds⟩ := passes_of_not_stops there (passes k (Nat.le_refl k))
    rw [List.range'_succ, serve_running ready runs]
    exact ih (ready.perform there succeeds) (by omega) fun j bound => passes j (by omega)

/-- A worker that meets a task to stop at runs those before it and settles the run. -/
theorem serve_stops {count : Nat} (ready : Ready work tasks s k h)
    (total : k + count = tasks.length) (later : k ≤ i) (stops : Stops signal work tasks s i)
    (passes : ∀ j, k ≤ j → j < i → ¬Stops signal work tasks s j) :
    ∃ fault, Settled signal work tasks s i fault (serve signal work (List.range' k count) h) := by
  obtain ⟨task, there, reason⟩ := stops
  have bound : i < tasks.length := (List.getElem?_eq_some_iff.mp there).1
  induction count generalizing k h with
  | zero => omega
  | succ count ih =>
    rw [List.range'_succ]
    by_cases here : k = i
    · subst here
      cases runs : (HasSignals.signals (stateBefore work tasks s k)).running signal with
      | false =>
        rw [serve_stopped ready runs]
        exact ⟨_, ready.settled_stopped _ runs⟩
      | true =>
        rw [runs] at reason
        obtain ⟨fault, fails⟩ := reason.resolve_left Bool.true_eq_false.mp
        have settled := ready.settled_failed there runs fails
        have noted : (h.perform signal work k).failure.isSome = true :=
          settled.failure ▸ rfl
        rw [serve_running ready runs, serve_idle (.inl noted)]
        exact ⟨_, settled.failure, settled.reason, settled.state⟩
    · have inside : k < tasks.length := by omega
      have thereNow : tasks[k]? = some tasks[k] := List.getElem?_eq_getElem inside
      obtain ⟨runs, came, succeeds⟩ :=
        passes_of_not_stops thereNow (passes k (Nat.le_refl k) (by omega))
      rw [serve_running ready runs]
      exact ih (ready.perform thereNow succeeds) (by omega) (by omega) fun j after =>
        passes j (by omega)

/-- A worker leaves because a failure was noted or because no number is left. -/
theorem serve_leaves (queue : List Nat) (h : Handout σ τ) :
    (serve signal work queue h).failure.isSome = true ∨ (serve signal work queue h).queue = [] := by
  induction queue generalizing h with
  | nil => exact .inr rfl
  | cons k queue ih =>
    rw [serve]
    split
    next failed => exact .inl failed
    next =>
      split
      · exact ih _
      · exact .inl rfl

/-- Workers that come after the first one find nothing to do. -/
theorem takeTurns_succ (others : Nat) :
    takeTurns signal work (others + 1) h
      = { serve signal work h.queue h with
          queue := (serve signal work h.queue h).queue.drop others } := by
  induction others with
  | zero => rfl
  | succ others ih =>
    have turn : takeTurns signal work (others + 2) h
        = serve signal work (takeTurns signal work (others + 1) h).queue
            (takeTurns signal work (others + 1) h) := rfl
    rw [turn, ih, serve_idle, List.tail_drop]
    refine (serve_leaves h.queue h).imp_right fun none => ?_
    rw [none, List.drop_nil]

/-! ### Runs -/

theorem workerCount_pos (concurrency : Nat) (pool : Option Workers) {count : Nat}
    (some : 0 < count) : ∃ others, workerCount concurrency pool count = others + 1 := by
  refine ⟨workerCount concurrency pool count - 1, ?_⟩
  have positive : 1 ≤ workerCount concurrency pool count := by
    cases pool with
    | none => exact Nat.le_refl 1
    | some workers => exact Nat.le_min.mpr ⟨Nat.le_max_right _ _, some⟩
  omega

theorem run_nil (concurrency : Nat) (pool : Option Workers) :
    run concurrency pool signal work [] s = (.ok [], ofTasks [] s) := rfl

/-- A run is refused if its signal stopped before. -/
theorem run_refused (concurrency : Nat) (pool : Option Workers) (nonempty : tasks ≠ [])
    (stopped : (HasSignals.signals s).running signal = false) :
    run concurrency pool signal work tasks s = (.error .terminated, ofTasks tasks s) := by
  have notEmpty : ¬tasks.isEmpty = true := by
    rwa [List.isEmpty_iff]
  have refused : (HasSignals.signals s).assertRunning signal = .error .terminated := by
    rw [Signals.assertRunning, stopped]
    rfl
  rw [run, if_neg notEmpty, refused]

/-- A run is what its first worker does. -/
theorem run_eq_serve (concurrency : Nat) (pool : Option Workers) (work : τ → Action σ τ)
    (nonempty : tasks ≠ []) (runs : (HasSignals.signals s).running signal = true) :
    ∃ queue, run concurrency pool signal work tasks s
      = ((serve signal work (List.range' 0 tasks.length) (ofTasks tasks s)).result,
          { serve signal work (List.range' 0 tasks.length) (ofTasks tasks s) with queue }) := by
  have notEmpty : ¬tasks.isEmpty = true := by
    rwa [List.isEmpty_iff]
  have accepted : (HasSignals.signals s).assertRunning signal = .ok () := by
    rw [Signals.assertRunning, if_pos runs]
  have all : (ofTasks tasks s).queue = List.range' 0 tasks.length := List.range_eq_range'
  obtain ⟨others, workers⟩ :=
    workerCount_pos concurrency pool (List.length_pos_iff.mpr nonempty)
  rw [run, if_neg notEmpty, accepted, workers]
  simp only [takeTurns_succ, all]
  exact ⟨_, rfl⟩

/-- A run that stops at no task runs all of them. -/
theorem run_all (concurrency : Nat) (pool : Option Workers)
    (passes : ∀ i, ¬Stops signal work tasks s i) :
    ∃ h, run concurrency pool signal work tasks s = (h.result, h) ∧
      Ready work tasks s tasks.length h := by
  by_cases none : tasks = []
  · subst none
    exact ⟨_, run_nil concurrency pool, ready_ofTasks work [] s⟩
  · have inside : 0 < tasks.length := List.length_pos_iff.mpr none
    have there : tasks[0]? = some tasks[0] := List.getElem?_eq_getElem inside
    have runs : (HasSignals.signals s).running signal = true :=
      (passes_of_not_stops there (passes 0)).1
    have ready := serve_all (ready_ofTasks work tasks s) (Nat.zero_add tasks.length)
      fun j _ => passes j
    obtain ⟨queue, result⟩ := run_eq_serve concurrency pool work none runs
    exact ⟨_, result, ready.withQueue queue⟩

/-- A run that stops at a task fails for the reason it stops.  The signal is raised then, unless the run
was refused because it did not run in the first place. -/
theorem run_stops (concurrency : Nat) (pool : Option Workers)
    (first : FirstStop signal work tasks s i) :
    ∃ fault h, run concurrency pool signal work tasks s = (.error fault, h) ∧
      Reason signal work tasks s i fault h.started.reverse ∧
      (h.state = ((Tasks.raise signal).run (stateBefore work tasks s h.started.length)).2 ∨
        h.started = [] ∧ h.state = s ∧ (HasSignals.signals s).running signal = false) := by
  obtain ⟨task, there, -⟩ := first.1
  have bound : i < tasks.length := (List.getElem?_eq_some_iff.mp there).1
  have nonempty : tasks ≠ [] := List.length_pos_iff.mp (by omega)
  cases runs : (HasSignals.signals s).running signal with
  | false =>
    have atOnce : i = 0 := by
      rcases Nat.eq_zero_or_pos i with zero | later
      · exact zero
      · have thereNow : tasks[0]? = some tasks[0] := List.getElem?_eq_getElem (by omega)
        exact absurd ⟨_, thereNow, .inl runs⟩ (first.2 0 later)
    subst atOnce
    exact ⟨_, _, run_refused concurrency pool nonempty runs, .stopped runs, .inr ⟨rfl, rfl, rfl⟩⟩
  | true =>
    obtain ⟨fault, settled⟩ := serve_stops (ready_ofTasks work tasks s)
      (Nat.zero_add tasks.length) (Nat.zero_le i) first.1 fun j _ before => first.2 j before
    obtain ⟨queue, result⟩ := run_eq_serve concurrency pool work nonempty runs
    rw [result_failed settled.failure] at result
    exact ⟨fault, _, result, settled.reason, .inl settled.state⟩

/-- A run that stops at some task stops at a first one. -/
theorem exists_firstStop (stops : Stops signal work tasks s i) :
    ∃ j, FirstStop signal work tasks s j := by
  induction i using Nat.strongRecOn with
  | ind i ih =>
    by_cases earlier : ∃ j < i, Stops signal work tasks s j
    · obtain ⟨j, before, stopsThere⟩ := earlier
      exact ih j before stopsThere
    · exact ⟨i, stops, fun j before stopsThere => earlier ⟨j, before, stopsThere⟩⟩

/-- A run leaves the state to its tasks; at most it raises its own signal in the end. -/
theorem state_run (concurrency : Nat) (pool : Option Workers) (signal : Nat) (work : τ → Action σ τ)
    (tasks : List τ) (s : σ) :
    let h := (run concurrency pool signal work tasks s).2
    h.state = stateBefore work tasks s h.started.length ∨
      h.state = ((Tasks.raise signal).run (stateBefore work tasks s h.started.length)).2 := by
  intro h
  by_cases passes : ∀ i, ¬Stops signal work tasks s i
  · obtain ⟨h', result, ready⟩ := run_all concurrency pool passes
    have same : h = h' := congrArg Prod.snd result
    left
    rw [same, ready.state, ready.length_started]
  · obtain ⟨i, stops⟩ := Classical.not_forall_not.mp passes
    obtain ⟨j, first⟩ := exists_firstStop stops
    obtain ⟨fault, h', result, -, raised | ⟨unstarted, unchanged, -⟩⟩ :=
      run_stops concurrency pool first
    · have same : h = h' := congrArg Prod.snd result
      exact .inr (same ▸ raised)
    · have same : h = h' := congrArg Prod.snd result
      left
      rw [same, unstarted, unchanged]
      rfl

/-- A run that stops at no task yields all of them, each the way it came back. -/
theorem run_passing (concurrency : Nat) (pool : Option Workers)
    (passes : ∀ i, ¬Stops signal work tasks s i) :
    let r := run concurrency pool signal work tasks s
    ∃ done, r.1 = .ok done ∧ done.length = tasks.length ∧
      (∀ i task, tasks[i]? = some task → ∃ came, done[i]? = some came ∧
        (work task (stateBefore work tasks s i)).1 = .ok came) ∧
      r.2.started.reverse = List.range tasks.length ∧
      r.2.state = stateBefore work tasks s tasks.length := by
  obtain ⟨h, run, ready⟩ := run_all concurrency pool passes
  rw [run]
  refine ⟨h.slots.toList, result_unfailed ready.unfailed, ?_, fun i task there => ?_, ready.started,
    ready.state⟩
  · rw [Array.length_toList, ready.size]
  · have bound : i < tasks.length := (List.getElem?_eq_some_iff.mp there).1
    rw [Array.getElem?_toList]
    exact ready.done i bound task there

/-! ### One worker as a loop -/

theorem perform_slot {j : Nat} (other : k ≠ j) :
    (h.perform signal work k).slots[j]? = h.slots[j]? := by
  rw [Handout.perform]
  split
  · rfl
  · split
    · exact Array.getElem?_setIfInBounds_ne other
    · rfl

/-- A worker leaves tasks alone whose numbers it does not meet. -/
theorem serve_slot {j : Nat} {queue : List Nat} (other : j ∉ queue) :
    (serve signal work queue h).slots[j]? = h.slots[j]? := by
  induction queue generalizing h with
  | nil => rfl
  | cons k queue ih =>
    obtain ⟨different, rest⟩ := not_or.mp (mt List.mem_cons.mpr other)
    rw [serve]
    split
    · rfl
    · split
      · rw [ih rest, perform_slot (Ne.symm different)]
      · rfl

theorem start_stopped {task : Action σ τ}
    (stopped : (HasSignals.signals s).running signal = false) :
    Tasks.start signal task s = (.error .terminated, ((Tasks.raise signal).run s).2) := by
  rw [Tasks.start, Tasks.guard, Action.bind, Tasks.assertRunning, Signals.assertRunning, stopped]
  rfl

theorem start_running {task : Action σ τ} (runs : (HasSignals.signals s).running signal = true) :
    Tasks.start signal task s = Tasks.guard signal task s := by
  rw [Tasks.start, Tasks.guard, Action.bind, Tasks.assertRunning, Signals.assertRunning, if_pos runs]
  rfl

theorem runAll_cons_error {task : Action σ τ} {rest : List (Action σ τ)} {fault : Fault} {t : σ}
    (step : Tasks.start signal task s = (.error fault, t)) :
    Tasks.runAll signal (task :: rest) s = (.error fault, t) := by
  rw [Tasks.runAll, Action.collect, Action.bind, step]

theorem runAll_cons_ok {task : Action σ τ} {rest : List (Action σ τ)} {came : τ} {t : σ}
    (step : Tasks.start signal task s = (.ok came, t)) :
    Tasks.runAll signal (task :: rest) s
      = ((Tasks.runAll signal rest t).1.map (came :: ·), (Tasks.runAll signal rest t).2) := by
  rw [Tasks.runAll, Action.collect, Action.bind, step]
  show Action.bind (Tasks.runAll signal rest) _ t = _
  rw [Action.bind]
  rcases Tasks.runAll signal rest t with ⟨fault | done, t'⟩ <;> rfl

theorem drop_of_slot {came : τ} {slots : Array τ} (there : slots[k]? = some came) :
    slots.toList.drop k = came :: slots.toList.drop (k + 1) := by
  obtain ⟨inside, rfl⟩ := Array.getElem?_eq_some_iff.mp there
  rw [List.drop_eq_getElem_cons (by rwa [Array.length_toList]), Array.getElem_toList]

/-- A task that fails leaves the same behind in a loop and at a worker. -/
theorem Ready.start_failing (ready : Ready work tasks s k h) {task : τ} {fault : Fault}
    (there : tasks[k]? = some task)
    (runs : (HasSignals.signals (stateBefore work tasks s k)).running signal = true)
    (fails : (work task (stateBefore work tasks s k)).1 = .error fault) :
    Tasks.start signal (work task) h.state
      = (.error (Tasks.failure fault), (h.perform signal work k).state) := by
  have after : stateBefore work tasks s (k + 1) = _ := stateBefore_succ there
  have step : work task (stateBefore work tasks s k)
      = (.error fault, stateBefore work tasks s (k + 1)) := Prod.ext fails after.symm
  rw [ready.state, start_running runs, Tasks.guard, step, ready.perform_failing there fails]
  rfl

/-- So does a task that does not fail. -/
theorem Ready.start_passing (ready : Ready work tasks s k h) {task came : τ}
    (there : tasks[k]? = some task)
    (runs : (HasSignals.signals (stateBefore work tasks s k)).running signal = true)
    (passes : (work task (stateBefore work tasks s k)).1 = .ok came) :
    Tasks.start signal (work task) h.state = (.ok came, (h.perform signal work k).state) := by
  have after : stateBefore work tasks s (k + 1) = _ := stateBefore_succ there
  have step : work task (stateBefore work tasks s k)
      = (.ok came, stateBefore work tasks s (k + 1)) := Prod.ext passes after.symm
  have next : Ready work tasks s (k + 1) (h.perform signal work k) := ready.perform there passes
  rw [ready.state, start_running runs, Tasks.guard, step, next.state]

/-- What a task came to stays in its slot while a worker goes on. -/
theorem Ready.slot_kept (next : Ready work tasks s (k + 1) h) {task came : τ}
    (there : tasks[k]? = some task) (passes : (work task (stateBefore work tasks s k)).1 = .ok came)
    (count : Nat) : (serve signal work (List.range' (k + 1) count) h).slots[k]? = some came := by
  have unmet : k ∉ List.range' (k + 1) count := fun member =>
    absurd (List.mem_range'_1.mp member).1 (by omega)
  obtain ⟨other, slot, same⟩ := next.done k (Nat.lt_succ_self k) _ there
  cases passes.symm.trans same
  exact (serve_slot unmet).trans slot

/-- The tasks that are left come back from a loop the way they come back from a worker. -/
theorem runAll_left (signal : Nat) {count : Nat} (ready : Ready work tasks s k h)
    (total : k + count = tasks.length) :
    Tasks.runAll signal ((tasks.drop k).map work) h.state
      = ((serve signal work (List.range' k count) h).result.map (List.drop k),
          (serve signal work (List.range' k count) h).state) := by
  induction count generalizing k h with
  | zero =>
    have none : tasks.drop k = [] := List.drop_eq_nil_of_le (by omega)
    have slots : h.slots.toList.drop k = [] := by
      refine List.drop_eq_nil_of_le ?_
      rw [Array.length_toList, ready.size]
      omega
    have served : serve signal work (List.range' k 0) h = { h with queue := [] } := rfl
    rw [none, served, result_withQueue, result_unfailed ready.unfailed, Except.map, slots]
    rfl
  | succ count ih =>
    have inside : k < tasks.length := by omega
    have there : tasks[k]? = some tasks[k] := List.getElem?_eq_getElem inside
    rw [List.drop_eq_getElem_cons inside, List.map_cons, List.range'_succ]
    cases runs : (HasSignals.signals (stateBefore work tasks s k)).running signal with
    | false =>
      have settled := ready.settled_stopped (List.range' (k + 1) count) runs
      rw [serve_stopped ready runs, result_failed settled.failure]
      rw [← ready.state] at runs
      exact runAll_cons_error (start_stopped runs)
    | true =>
      rw [serve_running ready runs]
      cases came : (work tasks[k] (stateBefore work tasks s k)).1 with
      | error fault =>
        have settled := ready.settled_failed there runs came
        have noted : (h.perform signal work k).failure.isSome = true := settled.failure ▸ rfl
        rw [serve_idle (.inl noted), result_withQueue, result_failed settled.failure]
        exact runAll_cons_error (ready.start_failing there runs came)
      | ok task =>
        have next : Ready work tasks s (k + 1) (h.perform signal work k) := ready.perform there came
        let served := serve signal work (List.range' (k + 1) count) (h.perform signal work k)
        have kept : served.slots[k]? = some task := next.slot_kept there came count
        rw [runAll_cons_ok (ready.start_passing there runs came), ih next (by omega)]
        refine Prod.ext ?_ rfl
        show Except.map _ (Except.map _ _) = _
        cases failure : served.failure with
        | some fault =>
          rw [result_failed failure]
          rfl
        | none =>
          rw [result_unfailed failure, Except.map, Except.map, Except.map, drop_of_slot kept]

/-- One worker, or several that take turns, do what the loop over the tasks does. -/
theorem run_eq_loop (concurrency : Nat) (pool : Option Workers) (signal : Nat)
    (work : τ → Action σ τ) (tasks : List τ) (s : σ) :
    Tasks.run signal (tasks.map work) s
      = ((run concurrency pool signal work tasks s).1,
          (run concurrency pool signal work tasks s).2.state) := by
  by_cases none : tasks = []
  · subst none
    rfl
  · have notEmpty : ¬(tasks.map work).isEmpty = true := by
      rwa [List.isEmpty_iff, List.map_eq_nil_iff]
    rw [Tasks.run, if_neg notEmpty, Action.bind, Tasks.assertRunning]
    cases runs : (HasSignals.signals s).running signal with
    | false =>
      rw [run_refused concurrency pool none runs, Signals.assertRunning, runs]
      rfl
    | true =>
      obtain ⟨queue, result⟩ := run_eq_serve concurrency pool work none runs
      have left := runAll_left signal (ready_ofTasks work tasks s) (Nat.zero_add tasks.length)
      have whole (r : Checked (List τ)) : r.map (List.drop 0) = r := by cases r <;> rfl
      rw [whole] at left
      rw [result, Signals.assertRunning, if_pos runs]
      exact left

/-! ### All tasks, or the first failure -/

variable [LawfulSignals σ]

theorem signals_raise (signal : Nat) (s : σ) :
    HasSignals.signals ((Tasks.raise signal).run s).2 = (HasSignals.signals s).raise signal :=
  LawfulSignals.signals_withSignals _ _

/-- The signal of a run that stops at a task does not run afterwards. -/
theorem run_failing (concurrency : Nat) (pool : Option Workers)
    (known : signal < (HasSignals.signals s).cells.size)
    (keeps : ∀ task ∈ tasks, ∀ s,
      (HasSignals.signals s).cells.size ≤ (HasSignals.signals (work task s).2).cells.size)
    (first : FirstStop signal work tasks s i) :
    let r := run concurrency pool signal work tasks s
    ∃ fault, r.1 = .error fault ∧ Reason signal work tasks s i fault r.2.started.reverse ∧
      (HasSignals.signals r.2.state).running signal = false := by
  obtain ⟨fault, h, run, reason, raised | ⟨-, unchanged, stopped⟩⟩ :=
    run_stops concurrency pool first
  · have size : (HasSignals.signals s).cells.size
        ≤ (HasSignals.signals (stateBefore work tasks s h.started.length)).cells.size :=
      stateBefore_induct
        (fun t => (HasSignals.signals s).cells.size ≤ (HasSignals.signals t).cells.size)
        (Nat.le_refl _) (fun task member t below => Nat.le_trans below (keeps task member t)) _
    rw [run]
    refine ⟨fault, rfl, reason, ?_⟩
    rw [raised, signals_raise]
    exact Signals.running_raise_self (Nat.lt_of_lt_of_le known size)
  · rw [run]
    refine ⟨fault, rfl, reason, ?_⟩
    rw [unchanged, stopped]

/-- A run itself changes no signal but its own. -/
theorem cell_run (concurrency : Nat) (pool : Option Workers) {signal : Nat}
    (work : τ → Action σ τ) (tasks : List τ) (s : σ) {j : Nat} (other : signal ≠ j) :
    let h := (run concurrency pool signal work tasks s).2
    (HasSignals.signals h.state).cells[j]?
      = (HasSignals.signals (stateBefore work tasks s h.started.length)).cells[j]? := by
  intro h
  rcases state_run concurrency pool signal work tasks s with left | raised
  · rw [show h.state = _ from left]
  · rw [show h.state = _ from raised, signals_raise, Signals.getElem?_raise, if_neg other]

/-- A run under a child of the caller's signal changes none of the caller's signals. -/
theorem run_child (concurrency : Nat) (pool : Option Workers) {above : Signals} {caller : Nat}
    (child : (HasSignals.signals s, signal) = above.child caller)
    (leaves : ∀ j < above.cells.size, ∀ task ∈ tasks, ∀ s,
      (HasSignals.signals (work task s).2).cells[j]? = (HasSignals.signals s).cells[j]?) :
    let h := (run concurrency pool signal work tasks s).2
    ∀ j < above.cells.size, (HasSignals.signals h.state).cells[j]? = above.cells[j]? ∧
      (HasSignals.signals h.state).running j = above.running j := by
  intro h
  have signals : HasSignals.signals s = (above.child caller).1 := congrArg Prod.fst child
  have number : signal = above.cells.size := congrArg Prod.snd child
  have cell (j : Nat) (old : j < above.cells.size) :
      (HasSignals.signals h.state).cells[j]? = above.cells[j]? := by
    have other : signal ≠ j := by omega
    have given : (HasSignals.signals s).cells[j]? = above.cells[j]? := by
      rw [signals, Signals.child, Array.getElem?_push_lt old, Array.getElem?_eq_getElem old]
    rw [cell_run concurrency pool work tasks s other]
    exact stateBefore_induct (fun t => (HasSignals.signals t).cells[j]? = above.cells[j]?) given
      (fun task member t same => (leaves j old task member t).trans same) _
  exact fun j old => ⟨cell j old, Signals.running_congr fun i below => cell i (by omega)⟩

/-- **Handed out tasks all run, or the first failure is reported.**  A run stops at a task if its signal
does not run when the task has its turn, or if the task fails.

* If it stops at no task, every task runs once, in order, and the tasks come back in their order, each
  the way it came back; nothing else happens to the state.
* Otherwise the tasks before the first one that it stops at ran once, in order.  That one started only if
  the signal ran, no later one did, and the run reports that it was terminated or what the task failed
  with.  The signal does not run afterwards.
* Other signals are as the tasks left them.  Under a child of the caller's signal the caller's signal and
  those above it stay as they are, unless a task itself changes them. -/
theorem run_all_or_first_failure (concurrency : Nat) (pool : Option Workers)
    {signal : Nat} {work : τ → Action σ τ} (tasks : List τ) {s : σ}
    (known : signal < (HasSignals.signals s).cells.size)
    (keeps : ∀ task ∈ tasks, ∀ s,
      (HasSignals.signals s).cells.size ≤ (HasSignals.signals (work task s).2).cells.size) :
    let r := run concurrency pool signal work tasks s
    (tasks = [] → r.1 = .ok []) ∧
    ((∀ i, ¬Stops signal work tasks s i) →
      ∃ done, r.1 = .ok done ∧ done.length = tasks.length ∧
        (∀ i task, tasks[i]? = some task → ∃ came, done[i]? = some came ∧
          (work task (stateBefore work tasks s i)).1 = .ok came) ∧
        r.2.started.reverse = List.range tasks.length ∧
        r.2.state = stateBefore work tasks s tasks.length) ∧
    (∀ i, FirstStop signal work tasks s i →
      ∃ fault, r.1 = .error fault ∧ Reason signal work tasks s i fault r.2.started.reverse ∧
        (HasSignals.signals r.2.state).running signal = false) ∧
    (∀ j, signal ≠ j →
      (HasSignals.signals r.2.state).cells[j]?
        = (HasSignals.signals (stateBefore work tasks s r.2.started.length)).cells[j]?) ∧
    (∀ above caller, (HasSignals.signals s, signal) = Signals.child above caller →
      (∀ j < above.cells.size, ∀ task ∈ tasks, ∀ s,
        (HasSignals.signals (work task s).2).cells[j]? = (HasSignals.signals s).cells[j]?) →
      ∀ j < above.cells.size, (HasSignals.signals r.2.state).cells[j]? = above.cells[j]? ∧
        (HasSignals.signals r.2.state).running j = above.running j) := by
  refine ⟨?_, run_passing concurrency pool, fun i => run_failing concurrency pool known keeps,
    fun j => cell_run concurrency pool work tasks s, fun above caller => run_child concurrency pool⟩
  rintro rfl
  rfl

/-- Work that crashes on one number and raises the second signal on another one. -/
def fragile : Nat → Action Signals Nat
  | 0 => Action.fail (.crash (.raised "out of range"))
  | 1 => Tasks.raise 1 >>= fun _ => pure 1
  | n => pure n

/-- A root signal and its child. -/
def rootAndChild : Signals := ⟨#[{}, { parent := some 0 }]⟩

theorem run_all_or_first_failure_of_three :
    let r := run 4 (some ⟨1⟩) 1 fragile [2, 0, 1] rootAndChild
    1 < rootAndChild.cells.size ∧
    FirstStop 1 fragile [2, 0, 1] rootAndChild 1 ∧
    (∃ fault, r.1 = .error fault ∧
      Reason 1 fragile [2, 0, 1] rootAndChild 1 fault r.2.started.reverse ∧
      r.2.state.running 1 = false) ∧
    r.2.state.running 0 = true := by
  have known : 1 < rootAndChild.cells.size := by decide
  have runs : rootAndChild.running 1 = true := by
    rw [Signals.running]
    show Signals.running _ 0 = true
    rw [Signals.running]
    rfl
  have keeps : ∀ task ∈ [2, 0, 1], ∀ s : Signals, s.cells.size ≤ (fragile task s).2.cells.size := by
    intro task member s
    rcases task with _ | _ | task
    · exact Nat.le_refl _
    · exact Nat.le_of_eq (Signals.size_raise s 1).symm
    · exact Nat.le_refl _
  have leaves : ∀ j < 1, ∀ task ∈ [2, 0, 1], ∀ s : Signals,
      (fragile task s).2.cells[j]? = s.cells[j]? := by
    intro j bound task member s
    rcases task with _ | _ | task
    · rfl
    · show (s.raise 1).cells[j]? = _
      rw [Signals.getElem?_raise, if_neg (by omega)]
    · rfl
  have first : FirstStop 1 fragile [2, 0, 1] rootAndChild 1 := by
    refine ⟨⟨0, rfl, .inr ⟨_, rfl⟩⟩, ?_⟩
    rintro j before ⟨task, there, stops⟩
    obtain rfl : j = 0 := by omega
    cases there
    rcases stops with stopped | ⟨fault, fails⟩
    · exact absurd (runs.symm.trans stopped) Bool.true_eq_false.mp
    · cases fails
  obtain ⟨-, -, failing, -, child⟩ :=
    run_all_or_first_failure (s := rootAndChild) 4 (some ⟨1⟩) [2, 0, 1] known keeps
  have caller := (child ⟨#[{}]⟩ 0 rfl leaves 0 (by decide)).2
  refine ⟨known, first, failing 1 first, caller.trans ?_⟩
  rw [Signals.running]
  rfl

end Handout

end NeighborGraph
