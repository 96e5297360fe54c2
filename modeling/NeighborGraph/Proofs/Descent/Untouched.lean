import NeighborGraph.Proofs.Descent.Run

/-!
# What a step does not touch

Most steps change little of a descent.  Whatever is read off a descent and is the same before and after
an action is left as it was (`Descent.Leaves`), and the rules for that follow the way actions are put
together.

Streams, signals and reports change all the time.  What looks at none of them is `Aside`; what does not
look at the lists and at what has been compared either is `Apart`, and comparisons and offers leave it
as it was.
-/

namespace NeighborGraph

open NeighborGraph.Action

namespace Descent

variable {α β γ : Type} {g : Descent → γ}

/-- An action that succeeds leaves what `g` reads off as it was. -/
def Leaves (g : Descent → γ) (m : Action Descent α) : Prop :=
  ∀ k, m.Ensures (fun d => g d = k) fun _ d => g d = k

/-- What holds of what was read off still holds. -/
theorem Leaves.keeps {m : Action Descent α} (h : Leaves g m) (P : γ → Prop) :
    m.Ensures (fun d => P (g d)) fun _ d => P (g d) := by
  intro d a d' kept run
  have same : g d' = g d := h (g d) d a d' rfl run
  show P (g d')
  rw [same]
  exact kept

/-- Streams, signals and reports have no part in what is read off. -/
structure Aside (g : Descent → γ) : Prop where
  signals : ∀ d signals, g { d with signals } = g d
  master : ∀ d master, g { d with master } = g d
  stream : ∀ d stream, g { d with stream } = g d
  events : ∀ d events, g { d with events } = g d
  log : ∀ d log, g { d with log } = g d

/-- Nor have the lists and what was compared. -/
structure Apart (g : Descent → γ) : Prop extends Aside g where
  lists : ∀ d lists, g { d with lists } = g d
  compared : ∀ d calls evaluated signals, g { d with calls, evaluated, signals } = g d
  encounters : ∀ d encounters, g { d with encounters } = g d
  pairs : ∀ d pairs, g { d with pairs } = g d

/-! ### Putting actions together -/

theorem leaves_pure (a : α) : Leaves g (Pure.pure a) := fun _ => ensures_pure fun _ same => same

theorem leaves_read (f : Descent → α) : Leaves g (read f) := fun _ => ensures_read fun _ same => same

theorem leaves_check (r : Checked α) : Leaves g (check r) :=
  fun _ => ensures_check fun _ _ _ same => same

theorem leaves_update {f : Descent → Descent} (same : ∀ d, g (f d) = g d) : Leaves g (update f) :=
  fun _ => ensures_update fun d stays => (same d).trans stays

theorem leaves_bind {m : Action Descent β} {f : β → Action Descent α} (first : Leaves g m)
    (second : ∀ b, Leaves g (f b)) : Leaves g (m >>= f) :=
  fun k => ensures_bind (first k) fun b => second b k

theorem leaves_ite {condition : Prop} [Decidable condition] {m n : Action Descent α}
    (yes : Leaves g m) (no : Leaves g n) : Leaves g (if condition then m else n) :=
  fun k => ensures_ite (fun _ => yes k) fun _ => no k

theorem leaves_forEach {items : List β} {f : β → Action Descent Unit}
    (each : ∀ b ∈ items, Leaves g (f b)) : Leaves g (forEach items f) :=
  fun k => ensures_forEach fun b member => each b member k

/-! ### Streams, signals and reports -/

theorem yields_draw {m : Random.Draw α} {result : α → Prop} (yields : m.Yields result) :
    (draw m).Yields result := ensures_zoom yields fun _ _ _ _ known => known

theorem Aside.map (aside : Aside g) (f : γ → β) : Aside fun d => f (g d) :=
  ⟨fun d _ => congrArg f (aside.signals d _), fun d _ => congrArg f (aside.master d _),
    fun d _ => congrArg f (aside.stream d _), fun d _ => congrArg f (aside.events d _),
    fun d _ => congrArg f (aside.log d _)⟩

/-- A property that has nothing to do with signals. -/
theorem Aside.ignoresSignals {before : Descent → Prop} (aside : Aside before) :
    Tasks.IgnoresSignals before := fun signals d known => (aside.signals d signals).mpr known

section Aside

variable (aside : Aside g)
include aside

theorem leaves_draw (m : Random.Draw α) : Leaves g (draw m) :=
  fun _ => ensures_zoom (yields_any m) fun d stream _ same _ => (aside.stream d stream).trans same

theorem leaves_drawSeed : Leaves g drawSeed :=
  fun _ => ensures_zoom (yields_any _) fun d master _ same _ => (aside.master d master).trans same

theorem leaves_reseed (seed : UInt64) : Leaves g (reseed seed) :=
  leaves_update fun d => aside.stream d _

theorem leaves_report (event : ProgressEvent) : Leaves g (report event) :=
  leaves_update fun d => aside.events d _

theorem leaves_note (level : LogLevel) (text : String) : Leaves g (note level text) :=
  leaves_update fun d => aside.log d _

omit aside in
/-- A phase does what is done in it. -/
theorem ensures_phase_of_aside {before : Descent → Prop} {after : α → Descent → Prop}
    (aside : Aside before) (aside' : ∀ a, Aside (after a)) {name : String} {m : Action Descent α}
    (h : m.Ensures before after) : (phase name m).Ensures before after := by
  refine ensures_bind ((leaves_report aside _).keeps fun known => known) fun _ => ?_
  refine ensures_bind h fun a => ?_
  refine ensures_bind ((leaves_report (aside' a) _).keeps fun known => known) fun _ => ?_
  exact ensures_pure fun _ known => known

theorem leaves_overNodes {signal : Nat} {p : NodeRange} {f : Nat → Action Descent Unit}
    (each : ∀ node ∈ p.nodes, Leaves g (f node)) : Leaves g (overNodes signal p f) := by
  refine leaves_bind (leaves_forEach fun node member => ?_) fun _ => leaves_report aside _
  exact leaves_bind (fun _ => Tasks.ensures_poll signal _) fun _ => each node member

theorem leaves_phase {name : String} {m : Action Descent α} (h : Leaves g m) :
    Leaves g (phase name m) :=
  fun k => ensures_phase_of_aside (aside.map (· = k)) (fun _ => aside.map (· = k)) (h k)

theorem ignoresSignals_of_aside (k : γ) : Tasks.IgnoresSignals fun d : Descent => g d = k :=
  (aside.map (· = k)).ignoresSignals

theorem leaves_overTiles {tiles : List α} {signal : Nat}
    {task : Nat → α → Action Descent Unit} (each : ∀ signal a, Leaves g (task signal a)) :
    Leaves g (overTiles tiles signal task) :=
  fun k => ensures_overTiles (ignoresSignals_of_aside aside k) (leaves_drawSeed aside k)
    (fun seed => leaves_reseed aside seed k) fun signal a _ => each signal a k

theorem leaves_gather (sampleSize node : Nat) : Leaves g (gather sampleSize node) := by
  refine leaves_bind (leaves_read _) fun new => ?_
  refine leaves_bind (leaves_read _) fun reverseNew => ?_
  refine leaves_bind (leaves_check new) fun new => ?_
  refine leaves_bind (leaves_check reverseNew) fun reverseNew => ?_
  refine leaves_bind (leaves_draw aside _) fun new => ?_
  refine leaves_bind (leaves_read _) fun old => ?_
  refine leaves_bind (leaves_read _) fun reverseOld => ?_
  refine leaves_bind (leaves_check old) fun old => ?_
  refine leaves_bind (leaves_check reverseOld) fun reverseOld => ?_
  refine leaves_bind (leaves_draw aside _) fun old => ?_
  exact leaves_pure _

theorem leaves_splitTiles (blind : ∀ d node places parts, g (keepParts node places parts d) = g d)
    (tiles : List NodeRange) (sampleSize signal : Nat) :
    Leaves g (splitTiles tiles sampleSize signal) := by
  refine leaves_bind (leaves_read _) fun shares => leaves_bind (leaves_check shares) fun shares => ?_
  refine leaves_overTiles aside fun signal share => leaves_overNodes aside fun node _ => ?_
  refine leaves_bind (leaves_read _) fun found => ?_
  cases found with
  | none => exact leaves_bind (leaves_read _) fun _ => fun _ => ensures_fail
  | some list =>
    refine leaves_bind (leaves_read _) fun places => leaves_bind (leaves_check places) fun places => ?_
    exact leaves_bind (leaves_draw aside _) fun parts => leaves_update fun d => blind d node places parts

theorem leaves_perturbs (rate : Float) : Leaves g (perturbs rate) :=
  leaves_ite (leaves_draw aside _) (leaves_pure false)

end Aside

/-- A map that is taken out and put back. -/
theorem leaves_overMap {take : Descent → NodeMap × Descent} {put : NodeMap → Descent → Descent}
    (same : ∀ map d, g (put map (take d).2) = g d) (m : Action NodeMap Unit) :
    Leaves g (overMap take put m) := by
  intro k d a d' start run
  rw [overMap] at run
  have after : d' = put (m (take d).1).2 (take d).2 := (Prod.ext_iff.mp run).2.symm
  rw [after, same]
  exact start

theorem leaves_requireList (node : Nat) : Leaves g (requireList node) := by
  intro k d a d' same run
  rw [requireList] at run
  split at run
  · cases run
    exact same
  · cases run

/-! ### Comparisons and offers -/

theorem leaves_offer (blind : ∀ d lists, g { d with lists } = g d) (owner candidate : Nat)
    (similarity : Float) : Leaves g (offer owner candidate similarity) := by
  intro k d changed d' same run
  rw [offer] at run
  cases found : d.lists[owner]? with
  | none =>
    simp only [found] at run
    cases run
  | some list =>
    simp only [found] at run
    cases run
    exact (blind d _).trans same

theorem leaves_discard_offer (blind : ∀ d lists, g { d with lists } = g d) (owner candidate : Nat)
    (similarity : Float) :
    Leaves g (discard (offer owner candidate similarity) : Action Descent Unit) :=
  fun k => ensures_discard (leaves_offer blind owner candidate similarity k)

/-- An offer that is counted if it changes a list. -/
theorem leaves_offerCounted (blind : ∀ d lists, g { d with lists } = g d)
    (countless : ∀ d updates, g { d with updates } = g d) (owner candidate : Nat)
    (similarity : Float) : Leaves g (offerCounted owner candidate similarity) := by
  refine leaves_bind (leaves_offer blind owner candidate similarity) fun _ => ?_
  exact leaves_ite (leaves_update fun d => countless d _) (leaves_pure _)

section Apart

variable (apart : Apart g)
include apart

theorem leaves_remember (e : Encounter) : Leaves g (remember e) :=
  leaves_update fun d => apart.encounters d _

theorem leaves_compare (comparison : Comparison) (a b : Nat) :
    Leaves g (compare comparison a b) := by
  intro k d answer d' same run
  have left : d' = _ := (congrArg Prod.snd run).symm.trans (after_compare comparison a b d)
  rw [left]
  exact (apart.compared d _ _ _).trans same

/-- What random nodes hear of shows in the lists alone. -/
theorem leaves_joinRandom (rule : JoinRule) (node : Nat) : Leaves g (joinRandom rule node) := by
  refine leaves_bind (leaves_read _) fun count => ?_
  refine leaves_bind (leaves_draw apart.toAside _) fun drawn => ?_
  refine leaves_bind (leaves_update fun d => apart.pairs d _) fun _ => ?_
  refine leaves_bind (leaves_compare apart _ _ _) fun answer => ?_
  cases answer with
  | none => exact leaves_remember apart _
  | some similarity =>
    refine leaves_bind (leaves_discard_offer apart.lists _ _ _) fun _ => ?_
    refine leaves_bind (leaves_perturbs apart.toAside _) fun heard => ?_
    refine leaves_bind (leaves_remember apart _) fun _ => ?_
    exact leaves_ite (leaves_discard_offer apart.lists _ _ _) (leaves_pure _)

end Apart

end Descent

end NeighborGraph
