import NeighborGraph.Proofs.Action

/-!
# What an action delivers

`Action.Ensures` leaves open whether a run succeeds at all.  `Action.Delivers` does not: from a state
with one property a run succeeds and ends with another one, or it fails and the failure has an excuse.
An action that needs none, whatever the state, is `Action.Total`.

The rules follow the way actions are put together, as those of `Ensures` do.  What is known of runs that
succeed is not proved again (`Delivers.and_ensures`).
-/

namespace NeighborGraph

namespace Action

variable {σ τ α β : Type}

/-- Runs from a state with `before` succeed and end with `after`, or fail with an excuse. -/
def Delivers (before : σ → Prop) (m : Action σ α) (after : α → σ → Prop)
    (excuse : Fault → σ → Prop) : Prop :=
  ∀ s, before s →
    (∃ a s', m s = (.ok a, s') ∧ after a s') ∨ ∃ fault s', m s = (.error fault, s') ∧ excuse fault s'

/-- Every run succeeds. -/
def Total (m : Action σ α) : Prop :=
  m.Delivers (fun _ => True) (fun _ _ => True) fun _ _ => False

variable {before : σ → Prop} {after : α → σ → Prop} {invariant : σ → Prop}
  {excuse : Fault → σ → Prop}

theorem Delivers.mono {before' : σ → Prop} {after' : α → σ → Prop} {m : Action σ α}
    (h : m.Delivers before after excuse) (weaker : ∀ s, before' s → before s)
    (stronger : ∀ a s, after a s → after' a s) : m.Delivers before' after' excuse := by
  intro s start
  rcases h s (weaker s start) with ⟨a, s', run, known⟩ | failed
  · exact .inl ⟨a, s', run, stronger a s' known⟩
  · exact .inr failed

/-- What is delivered, and what is known of every run that succeeds. -/
theorem Delivers.and_ensures {before' : σ → Prop} {after' : α → σ → Prop} {m : Action σ α}
    (h : m.Delivers before after excuse) (h' : m.Ensures before' after') :
    m.Delivers (fun s => before s ∧ before' s) (fun a s => after a s ∧ after' a s) excuse := by
  intro s ⟨start, start'⟩
  rcases h s start with ⟨a, s', run, known⟩ | failed
  · exact .inl ⟨a, s', run, known, h' s a s' start' run⟩
  · exact .inr failed

theorem delivers_pure {a : α} (h : ∀ s, before s → after a s) :
    (Pure.pure a : Action σ α).Delivers before after excuse :=
  fun s start => .inl ⟨a, s, rfl, h s start⟩

theorem delivers_read {f : σ → α} (h : ∀ s, before s → after (f s) s) :
    (read f).Delivers before after excuse :=
  fun s start => .inl ⟨f s, s, rfl, h s start⟩

theorem delivers_update {f : σ → σ} {after : Unit → σ → Prop}
    (h : ∀ s, before s → after () (f s)) : (update f).Delivers before after excuse :=
  fun s start => .inl ⟨(), f s, rfl, h s start⟩

/-- A check that passes is no step. -/
theorem check_ok_bind (a : β) (f : β → Action σ α) : (check (.ok a) >>= f : Action σ α) = f a := rfl

/-- A check that passes. -/
theorem delivers_check {r : Checked α} {a : α} (passed : r = .ok a)
    (h : ∀ s, before s → after a s) : (check r : Action σ α).Delivers before after excuse := by
  intro s start
  subst passed
  exact .inl ⟨a, s, rfl, h s start⟩

/-- After a step that succeeds comes the next one. -/
theorem bind_ok {m : Action σ β} {f : β → Action σ α} {b : β} {s t : σ} (step : m s = (.ok b, t)) :
    (m >>= f) s = f b t := by
  show bind m f s = f b t
  rw [bind, step]

/-- A step that fails is the last one. -/
theorem bind_error {m : Action σ β} {f : β → Action σ α} {fault : Fault} {s t : σ}
    (step : m s = (.error fault, t)) : (m >>= f) s = (.error fault, t) := by
  show bind m f s = (.error fault, t)
  rw [bind, step]

/-- One action after another; a failure of the first is a failure of both. -/
theorem delivers_bind {m : Action σ β} {f : β → Action σ α} {R : β → σ → Prop}
    (first : m.Delivers before R excuse) (second : ∀ b, (f b).Delivers (R b) after excuse) :
    (m >>= f).Delivers before after excuse := by
  intro s start
  rcases first s start with ⟨b, t, step, known⟩ | ⟨fault, t, step, excused⟩
  · rw [bind_ok step]
    exact second b t known
  · exact .inr ⟨fault, t, bind_error step, excused⟩

theorem delivers_discard {m : Action σ α} {after : Unit → σ → Prop}
    (h : m.Delivers before (fun _ s => after () s) excuse) :
    (discard m : Action σ Unit).Delivers before after excuse :=
  delivers_bind (m := m) (f := fun _ => Pure.pure ()) h fun _ => delivers_pure fun _ done => done

theorem delivers_ite {condition : Prop} [Decidable condition] {m n : Action σ α}
    (yes : condition → m.Delivers before after excuse)
    (no : ¬condition → n.Delivers before after excuse) :
    (if condition then m else n).Delivers before after excuse := by
  by_cases h : condition
  · rw [if_pos h]
    exact yes h
  · rw [if_neg h]
    exact no h

/-- A fact that does not depend on the state can be used like a hypothesis. -/
theorem delivers_of_fact {fact : Prop} {m : Action σ α}
    (h : fact → m.Delivers before after excuse) :
    m.Delivers (fun s => before s ∧ fact) after excuse := by
  intro s ⟨start, known⟩
  exact h known s start

/-- An action on a part of the state that always succeeds. -/
theorem delivers_zoom {get : σ → τ} {set : τ → σ → σ} {m : Action τ α} {result : α → Prop}
    (total : m.Total) (yields : m.Yields result)
    (h : ∀ s t a, before s → result a → after a (set t s)) :
    (zoom get set m).Delivers before after excuse := by
  intro s start
  rcases total (get s) trivial with ⟨a, t, run, -⟩ | ⟨-, -, -, none⟩
  · refine .inl ⟨a, set t s, ?_, h s t a start (yields (get s) a t trivial run)⟩
    rw [zoom, run]
  · exact none.elim

/-! ### Loops -/

/-- A loop goes on after an item that succeeds. -/
theorem forEach_cons_ok {b : β} {rest : List β} {f : β → Action σ Unit} {s t : σ}
    (step : f b s = (.ok (), t)) : forEach (b :: rest) f s = forEach rest f t := by
  rw [forEach, bind, step]

/-- A loop ends with an item that fails. -/
theorem forEach_cons_error {b : β} {rest : List β} {f : β → Action σ Unit} {s t : σ} {fault : Fault}
    (step : f b s = (.error fault, t)) : forEach (b :: rest) f s = (.error fault, t) := by
  rw [forEach, bind, step]

theorem delivers_forEach {items : List β} {f : β → Action σ Unit}
    (each : ∀ b ∈ items, (f b).Delivers invariant (fun _ => invariant) excuse) :
    (forEach items f).Delivers invariant (fun _ => invariant) excuse := by
  induction items with
  | nil => exact delivers_pure fun _ kept => kept
  | cons b rest ih =>
    refine delivers_bind (m := f b) (each b List.mem_cons_self) fun _ => ?_
    exact ih fun c member => each c (List.mem_cons_of_mem _ member)

theorem delivers_repeatTimes {m : Action σ Unit}
    (each : m.Delivers invariant (fun _ => invariant) excuse) (count : Nat) :
    (repeatTimes count m).Delivers invariant (fun _ => invariant) excuse := by
  induction count with
  | zero => exact delivers_pure fun _ kept => kept
  | succ count ih => exact delivers_bind each fun _ => ih

theorem delivers_collect {items : List β} {f : β → Action σ α}
    (each : ∀ b ∈ items, (f b).Delivers invariant (fun _ => invariant) excuse) :
    (collect items f).Delivers invariant (fun _ => invariant) excuse := by
  induction items with
  | nil => exact delivers_pure fun _ kept => kept
  | cons b rest ih =>
    refine delivers_bind (m := f b) (each b List.mem_cons_self) fun a => ?_
    refine delivers_bind (m := collect rest f)
      (ih fun c member => each c (List.mem_cons_of_mem _ member)) fun as => ?_
    exact delivers_pure fun _ kept => kept

/-! ### Actions that always succeed -/

theorem total_pure (a : α) : (Pure.pure a : Action σ α).Total := delivers_pure fun _ _ => trivial

/-- An action that always succeeds needs no excuse, whatever excuses there are. -/
theorem Total.delivers {m : Action σ α} {result : α → Prop} (total : m.Total)
    (yields : m.Yields result) : m.Delivers before (fun a _ => result a) excuse := by
  intro s _
  rcases total s trivial with ⟨a, t, run, -⟩ | ⟨-, -, -, none⟩
  · exact .inl ⟨a, t, run, yields s a t trivial run⟩
  · exact none.elim

/-- Behind an action that always succeeds, its result is known. -/
theorem delivers_behind {m : Action σ β} {f : β → Action σ α} {result : β → Prop} (first : m.Total)
    (yields : m.Yields result)
    (second : ∀ b, result b → (f b).Delivers (fun _ => True) after excuse) :
    (m >>= f).Delivers before after excuse :=
  delivers_bind (first.delivers yields) fun b s known => second b known s trivial

/-- The second action may rely on what the first one yields. -/
theorem total_bind {m : Action σ β} {f : β → Action σ α} {result : β → Prop} (first : m.Total)
    (yields : m.Yields result) (second : ∀ b, result b → (f b).Total) : (m >>= f).Total :=
  delivers_behind first yields second

theorem total_then {m : Action σ β} {f : β → Action σ α} (first : m.Total)
    (second : ∀ b, (f b).Total) : (m >>= f).Total :=
  total_bind first (yields_any m) fun b _ => second b

end Action

end NeighborGraph
