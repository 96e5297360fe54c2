import NeighborGraph.Action
import NeighborGraph.Schedule.Tasks

/-!
# What a successful action ensures

`Action.Ensures` is a rule about the runs of an action that succeed: from a state with one property
they end with a result and a state with another.  A failing step ends a whole action, so a run that
succeeds is made of steps that succeed, and the rules follow the way actions are put together: one
after the other, over the items of a list, a number of times, on a part of the state, as tasks.

A loop needs an invariant.  Tasks also need that it does not depend on signals, which starting and
guarding them may change.
-/

namespace NeighborGraph

namespace Action

variable {σ τ α β : Type}

/-- Runs that succeed from a state with `before` end with `after`. -/
def Ensures (before : σ → Prop) (m : Action σ α) (after : α → σ → Prop) : Prop :=
  ∀ s a s', before s → m s = (.ok a, s') → after a s'

/-- Every result of an action that succeeds is one of these, whatever the state. -/
def Yields (m : Action σ α) (result : α → Prop) : Prop :=
  m.Ensures (fun _ => True) fun a _ => result a

variable {before : σ → Prop} {after : α → σ → Prop} {invariant : σ → Prop}

theorem Ensures.mono {before' : σ → Prop} {after' : α → σ → Prop} {m : Action σ α}
    (h : m.Ensures before after) (weaker : ∀ s, before' s → before s)
    (stronger : ∀ a s, after a s → after' a s) : m.Ensures before' after' := by
  intro s a s' start run
  exact stronger a s' (h s a s' (weaker s start) run)

/-- What two rules say of the same action. -/
theorem Ensures.and {before' : σ → Prop} {after' : α → σ → Prop} {m : Action σ α}
    (h : m.Ensures before after) (h' : m.Ensures before' after') :
    m.Ensures (fun s => before s ∧ before' s) fun a s => after a s ∧ after' a s := by
  intro s a s' ⟨start, start'⟩ run
  exact ⟨h s a s' start run, h' s a s' start' run⟩

/-- A rule and what is known of every result. -/
theorem Ensures.and_yields {m : Action σ α} {result : α → Prop} (h : m.Ensures before after)
    (yields : m.Yields result) : m.Ensures before fun a s => after a s ∧ result a := by
  intro s a s' start run
  exact ⟨h s a s' start run, yields s a s' trivial run⟩

theorem ensures_pure {a : α} (h : ∀ s, before s → after a s) :
    (Pure.pure a : Action σ α).Ensures before after := by
  intro s a' s' start run
  cases run
  exact h s start

theorem ensures_fail {fault : Fault} : (fail fault : Action σ α).Ensures before after := by
  intro s a s' _ run
  cases run

theorem ensures_read {f : σ → α} (h : ∀ s, before s → after (f s) s) :
    (read f).Ensures before after := by
  intro s a s' start run
  cases run
  exact h s start

theorem ensures_update {f : σ → σ} {after : Unit → σ → Prop}
    (h : ∀ s, before s → after () (f s)) : (update f).Ensures before after := by
  intro s a s' start run
  cases run
  exact h s start

theorem ensures_check {r : Checked α} (h : ∀ a, r = .ok a → ∀ s, before s → after a s) :
    (check r : Action σ α).Ensures before after := by
  intro s a s' start run
  cases run
  exact h a rfl s start

/-- One action after another. -/
theorem ensures_bind {m : Action σ β} {f : β → Action σ α} {R : β → σ → Prop}
    (first : m.Ensures before R) (second : ∀ b, (f b).Ensures (R b) after) :
    (m >>= f).Ensures before after := by
  intro s a s' start run
  have run : bind m f s = (.ok a, s') := run
  rw [bind] at run
  cases step : m s with
  | mk r t =>
    rw [step] at run
    cases r with
    | error fault => cases run
    | ok b => exact second b t a s' (first s b t start step) run

theorem ensures_discard {m : Action σ α} {after : Unit → σ → Prop}
    (h : m.Ensures before fun _ s => after () s) :
    (discard m : Action σ Unit).Ensures before after :=
  ensures_bind (m := m) (f := fun _ => Pure.pure ()) h fun _ => ensures_pure fun _ done => done

/-- An action on a part of the state. -/
theorem ensures_zoom {get : σ → τ} {set : τ → σ → σ} {m : Action τ α} {result : α → Prop}
    (yields : m.Yields result) (h : ∀ s t a, before s → result a → after a (set t s)) :
    (zoom get set m).Ensures before after := by
  intro s a s' start run
  rw [zoom] at run
  cases step : m (get s) with
  | mk r t =>
    rw [step] at run
    cases run
    exact h s t a start (yields (get s) a t trivial step)

theorem ensures_ite {condition : Prop} [Decidable condition] {m n : Action σ α}
    (yes : condition → m.Ensures before after) (no : ¬condition → n.Ensures before after) :
    (if condition then m else n).Ensures before after := by
  by_cases h : condition
  · rw [if_pos h]
    exact yes h
  · rw [if_neg h]
    exact no h

/-- A fact that does not depend on the state can be used like a hypothesis. -/
theorem ensures_of_fact {fact : Prop} {m : Action σ α} (h : fact → m.Ensures before after) :
    m.Ensures (fun s => before s ∧ fact) after := by
  intro s a s' start run
  exact h start.2 s a s' start.1 run

/-! ### Results -/

theorem yields_any (m : Action σ α) : m.Yields fun _ => True := fun _ _ _ _ _ => trivial

theorem yields_pure {a : α} {result : α → Prop} (h : result a) :
    (Pure.pure a : Action σ α).Yields result := ensures_pure fun _ _ => h

theorem yields_bind {m : Action σ β} {f : β → Action σ α} {first : β → Prop} {result : α → Prop}
    (h : m.Yields first) (then_ : ∀ b, first b → (f b).Yields result) :
    (m >>= f).Yields result := by
  refine ensures_bind h fun b => ?_
  intro s a s' known run
  exact then_ b known s a s' trivial run

theorem Yields.and {m : Action σ α} {result result' : α → Prop} (h : m.Yields result)
    (h' : m.Yields result') : m.Yields fun a => result a ∧ result' a :=
  fun s a s' start run => ⟨h s a s' start run, h' s a s' start run⟩

/-! ### Loops -/

theorem ensures_forEach {items : List β} {f : β → Action σ Unit}
    (each : ∀ b ∈ items, (f b).Ensures invariant fun _ => invariant) :
    (forEach items f).Ensures invariant fun _ => invariant := by
  induction items with
  | nil => exact ensures_pure fun _ kept => kept
  | cons b rest ih =>
    refine ensures_bind (m := f b) (each b List.mem_cons_self) fun _ => ?_
    exact ih fun c member => each c (List.mem_cons_of_mem _ member)

/-- What one item brings about, and every item leaves as it is, holds in the end. -/
theorem ensures_forEach_mem {items : List β} {f : β → Action σ Unit} {done : σ → Prop} {b : β}
    (member : b ∈ items) (each : ∀ c ∈ items, (f c).Ensures invariant fun _ => invariant)
    (there : (f b).Ensures invariant fun _ => done)
    (stays : ∀ c ∈ items, (f c).Ensures done fun _ => done) :
    (forEach items f).Ensures invariant fun _ => done := by
  induction items with
  | nil => exact absurd member List.not_mem_nil
  | cons c rest ih =>
    have eachRest : ∀ c ∈ rest, (f c).Ensures invariant fun _ => invariant := fun c inside =>
      each c (List.mem_cons_of_mem _ inside)
    have staysRest : ∀ c ∈ rest, (f c).Ensures done fun _ => done := fun c inside =>
      stays c (List.mem_cons_of_mem _ inside)
    rcases List.mem_cons.mp member with rfl | member
    · exact ensures_bind (m := f b) there fun _ => ensures_forEach staysRest
    · exact ensures_bind (m := f c) (each c List.mem_cons_self) fun _ =>
        ih member eachRest staysRest

theorem ensures_repeatTimes {m : Action σ Unit} (each : m.Ensures invariant fun _ => invariant)
    (count : Nat) : (repeatTimes count m).Ensures invariant fun _ => invariant := by
  induction count with
  | zero => exact ensures_pure fun _ kept => kept
  | succ count ih => exact ensures_bind each fun _ => ih

theorem ensures_collect {items : List β} {f : β → Action σ α}
    (each : ∀ b ∈ items, (f b).Ensures invariant fun _ => invariant) :
    (collect items f).Ensures invariant fun _ => invariant := by
  induction items with
  | nil => exact ensures_pure fun _ kept => kept
  | cons b rest ih =>
    refine ensures_bind (m := f b) (each b List.mem_cons_self) fun a => ?_
    refine ensures_bind (m := collect rest f)
      (ih fun c member => each c (List.mem_cons_of_mem _ member)) fun as => ?_
    exact ensures_pure fun _ kept => kept

theorem yields_collect (items : List β) (f : β → Action σ α) :
    (collect items f).Yields fun as => as.length = items.length := by
  induction items with
  | nil => exact yields_pure rfl
  | cons b rest ih =>
    refine yields_bind (m := f b) (yields_any _) fun a _ => ?_
    refine yields_bind (m := collect rest f) ih fun as length => yields_pure ?_
    exact congrArg (· + 1) length

/-- What one item brings about, and every item leaves as it is, holds in the end. -/
theorem ensures_collect_mem {items : List β} {f : β → Action σ α} {done : σ → Prop} {b : β}
    (member : b ∈ items) (each : ∀ c ∈ items, (f c).Ensures invariant fun _ => invariant)
    (there : (f b).Ensures invariant fun _ => done)
    (stays : ∀ c ∈ items, (f c).Ensures done fun _ => done) :
    (collect items f).Ensures invariant fun _ => done := by
  induction items with
  | nil => exact absurd member List.not_mem_nil
  | cons c rest ih =>
    have eachRest : ∀ c ∈ rest, (f c).Ensures invariant fun _ => invariant := fun c inside =>
      each c (List.mem_cons_of_mem _ inside)
    have staysRest : ∀ c ∈ rest, (f c).Ensures done fun _ => done := fun c inside =>
      stays c (List.mem_cons_of_mem _ inside)
    rcases List.mem_cons.mp member with rfl | member
    · refine ensures_bind (m := f b) there fun a => ?_
      refine ensures_bind (m := collect rest f) (ensures_collect staysRest) fun as => ?_
      exact ensures_pure fun _ kept => kept
    · refine ensures_bind (m := f c) (each c List.mem_cons_self) fun a => ?_
      refine ensures_bind (m := collect rest f) (ih member eachRest staysRest) fun as => ?_
      exact ensures_pure fun _ kept => kept

end Action

/-! ### Tasks -/

namespace Tasks

open NeighborGraph.Action

variable {σ τ : Type} [HasSignals σ] {invariant : σ → Prop}

theorem ensures_assertRunning (signal : Nat) :
    (assertRunning signal : Action σ Unit).Ensures invariant fun _ => invariant := by
  intro s a s' start run
  cases (Prod.ext_iff.mp run).2
  exact start

theorem ensures_poll (signal processed : Nat) :
    (poll signal processed : Action σ Unit).Ensures invariant fun _ => invariant := by
  intro s a s' start run
  cases (Prod.ext_iff.mp run).2
  exact start

/-- The invariant does not depend on signals. -/
def IgnoresSignals (invariant : σ → Prop) : Prop :=
  ∀ signals s, invariant s → invariant (HasSignals.withSignals signals s)

theorem ensures_child (ignores : IgnoresSignals invariant) (signal : Nat) :
    (child signal : Action σ Nat).Ensures invariant fun _ => invariant := by
  intro s a s' start run
  cases (Prod.ext_iff.mp run).2
  exact ignores _ s start

/-- A task that succeeds is not changed by its guard. -/
theorem ensures_start {before : σ → Prop} {after : τ → σ → Prop} {signal : Nat} {task : Action σ τ}
    (h : task.Ensures before after) : (start signal task).Ensures before after := by
  have guarded : ((assertRunning signal : Action σ Unit) >>= fun _ => task).Ensures before after :=
    ensures_bind (ensures_assertRunning signal) fun _ => h
  intro s a s' begins run
  have run : guard signal ((assertRunning signal : Action σ Unit) >>= fun _ => task) s
      = (.ok a, s') := run
  rw [guard] at run
  cases step : ((assertRunning signal : Action σ Unit) >>= fun _ => task) s with
  | mk r t =>
    rw [step] at run
    cases r with
    | error fault => cases run
    | ok b =>
      cases run
      exact guarded s a s' begins step

/-- A run of tasks keeps what every task keeps. -/
theorem ensures_run {signal : Nat} {tasks : List (Action σ τ)}
    (each : ∀ task ∈ tasks, task.Ensures invariant fun _ => invariant) :
    (run signal tasks).Ensures invariant fun _ => invariant := by
  rw [run]
  refine ensures_ite (fun _ => ensures_pure fun _ kept => kept) fun _ => ?_
  refine ensures_bind (m := assertRunning signal) (ensures_assertRunning signal) fun _ => ?_
  exact ensures_collect fun task member => ensures_start (each task member)

/-- What one task brings about, and every task leaves as it is, holds in the end. -/
theorem ensures_run_mem {signal : Nat} {tasks : List (Action σ τ)} {done : σ → Prop}
    {task : Action σ τ} (member : task ∈ tasks)
    (each : ∀ task ∈ tasks, task.Ensures invariant fun _ => invariant)
    (there : task.Ensures invariant fun _ => done)
    (stays : ∀ task ∈ tasks, task.Ensures done fun _ => done) :
    (run signal tasks).Ensures invariant fun _ => done := by
  have some : ¬tasks.isEmpty = true := by
    rw [List.isEmpty_iff]
    rintro rfl
    exact absurd member List.not_mem_nil
  rw [run, if_neg some]
  refine ensures_bind (m := assertRunning signal) (ensures_assertRunning signal) fun _ => ?_
  refine ensures_collect_mem member ?_ (ensures_start there) ?_
  · exact fun task inside => ensures_start (each task inside)
  · exact fun task inside => ensures_start (stays task inside)

end Tasks

end NeighborGraph
