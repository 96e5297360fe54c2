import NeighborGraph.Descent.LocalJoin
import NeighborGraph.Proofs.Action

/-!
# Steps of a descent

Of all that a descent changes, its result depends on the neighbor lists alone.  They change in
three ways, which are the constructors of `Step`: two nodes meet and are offered to each other, two
nodes are passed because they cannot be compared, or neighbors are picked.  `Standing` is the part
of a descent that steps are about; the encounters are in it, so that an invariant can speak of
everything that has been compared so far.

A property that every step keeps is `Lasting`.  Here this is carried over to the actions that make a
single step, or none: they keep every lasting property (`Descent.Keeps`).
-/

namespace NeighborGraph

namespace Encounter

/-- The two nodes, in the order in which they are compared. -/
def nodes : Encounter → Nat × Nat
  | drawn node candidate => (node, candidate)
  | joined a b => (a, b)
  | random node other _ => (node, other)

/-- Whether the second node hears of the first one, too. -/
def bothWays : Encounter → Bool
  | drawn .. => false
  | joined .. => true
  | random _ _ heard => heard

/-- What is offered to whom: an owner of a list, and the candidate for it. -/
def offers (e : Encounter) : List (Nat × Nat) :=
  if e.bothWays then [e.nodes, e.nodes.swap] else [e.nodes]

end Encounter

/-- The lists after one more offer. -/
def tell (similarity : Float) (lists : Array NeighborList) (offer : Nat × Nat) :
    Array NeighborList :=
  lists.modify offer.1 fun l => (l.add offer.1 offer.2 similarity).2

/-- Where a descent stands: its lists, and what brought them about. -/
structure Standing where
  lists : Array NeighborList
  calls : Nat
  encounters : List Encounter
  updateCounts : List Nat

/-- The standing after a comparison for an encounter, which leaves these lists. -/
def Standing.after (t : Standing) (e : Encounter) (lists : Array NeighborList) : Standing :=
  { t with lists, calls := t.calls + 1, encounters := e :: t.encounters }

/-- One step of a descent. -/
inductive Step (comparison : Comparison) (t : Standing) : Standing → Prop
  /-- Two nodes that cannot be compared. -/
  | passed (e : Encounter) (answer : Option Float)
      (answered : (comparison t.calls e.nodes.1 e.nodes.2).outcome = .ok answer)
      (nothing : answer.filter (!·.isNaN) = none) : Step comparison t (t.after e t.lists)
  /-- Two different nodes that have a list and a similarity. -/
  | met (e : Encounter) (similarity : Float)
      (answered : (comparison t.calls e.nodes.1 e.nodes.2).outcome = .ok (some similarity))
      (number : similarity.isNaN = false) (different : e.nodes.1 ≠ e.nodes.2)
      (first : e.nodes.1 < t.lists.size) (second : e.nodes.2 < t.lists.size) :
      Step comparison t (t.after e (e.offers.foldl (tell similarity) t.lists))
  /-- Neighbors that are picked for comparison. -/
  | picked (node : Nat) (ids : List Nat) :
      Step comparison t { t with lists := t.lists.modify node (·.check ids) }

/-- A property of `n` lists that every step keeps. -/
structure Lasting (comparison : Comparison) (n : Nat) (P : Standing → Prop) : Prop where
  sized : ∀ t, P t → t.lists.size = n
  step : ∀ t t', P t → Step comparison t t' → P t'

namespace Descent

open NeighborGraph.Action

/-- Where the descent stands. -/
def standing (d : Descent) : Standing where
  lists := d.lists
  calls := d.calls
  encounters := d.encounters
  updateCounts := d.updateCounts

/-- An action that succeeds keeps a property of the standing. -/
abbrev Keeps {α : Type} (P : Standing → Prop) (m : Action Descent α) : Prop :=
  m.Ensures (fun d => P d.standing) fun _ d => P d.standing

variable {α : Type} {P : Standing → Prop} {comparison : Comparison} {n : Nat}

/-- It is enough to look at one standing at a time. -/
theorem ensures_of_standing {m : Action Descent α} {after : α → Descent → Prop}
    (h : ∀ t, P t → m.Ensures (fun d => d.standing = t) after) :
    m.Ensures (fun d => P d.standing) after := by
  intro d a d' start run
  exact h d.standing start d a d' rfl run

/-- An action that leads to one standing has the properties of that standing. -/
theorem ensures_of_leads {m : Action Descent α} {before : Descent → Prop} {u : Standing}
    (leads : m.Ensures before fun _ d => d.standing = u) (kept : P u) :
    m.Ensures before fun _ d => P d.standing := by
  refine leads.mono (fun _ start => start) fun _ d stands => ?_
  rw [stands]
  exact kept

/-! ### Actions that are no step -/

theorem keeps_pure (a : α) : Keeps P (Pure.pure a) := ensures_pure fun _ kept => kept

theorem keeps_read (f : Descent → α) : Keeps P (read f) := ensures_read fun _ kept => kept

theorem keeps_check (r : Checked α) : Keeps P (check r) := ensures_check fun _ _ _ kept => kept

/-- A change of anything else. -/
theorem keeps_update {f : Descent → Descent} (same : ∀ d, (f d).standing = d.standing) :
    Keeps P (update f) := by
  refine ensures_update fun d kept => ?_
  rw [same]
  exact kept

theorem ensures_draw {m : Random.Draw α} {result : α → Prop} (yields : m.Yields result) :
    (draw m).Ensures (fun d => P d.standing) fun a d => P d.standing ∧ result a :=
  ensures_zoom yields fun _ _ _ kept known => ⟨kept, known⟩

theorem keeps_draw (m : Random.Draw α) : Keeps P (draw m) :=
  (ensures_draw (yields_any m)).mono (fun _ kept => kept)
    fun _ _ kept => kept.1

theorem keeps_drawSeed : Keeps P drawSeed :=
  ensures_zoom (yields_any _) fun _ _ _ kept _ => kept

theorem keeps_report (event : ProgressEvent) : Keeps P (report event) := keeps_update fun _ => rfl

theorem keeps_note (level : LogLevel) (text : String) : Keeps P (note level text) :=
  keeps_update fun _ => rfl

/-- Any stream will do; to look into the one at hand would mean to compute it. -/
theorem keeps_reseed (seed : UInt64) : Keeps P (reseed seed) := by
  have any (stream : Random.Stream) : Keeps P (update fun d => { d with stream }) :=
    keeps_update fun _ => rfl
  exact any _

theorem keeps_master (seed : UInt64) :
    Keeps P (update fun d => { d with master := Random.Stream.ofSeed seed }) := by
  have any (master : Random.Stream) : Keeps P (update fun d => { d with master }) :=
    keeps_update fun _ => rfl
  exact any _

/-- A property of the standing does not depend on signals. -/
theorem ignoresSignals (P : Standing → Prop) :
    Tasks.IgnoresSignals fun d : Descent => P d.standing := fun _ _ kept => kept

/-- What is done for every node of a range is done with a look at the signal before it and a report
in the end. -/
theorem keeps_overNodes {signal : Nat} {p : NodeRange} {f : Nat → Action Descent Unit}
    (each : ∀ node ∈ p.nodes, Keeps P (f node)) : Keeps P (overNodes signal p f) := by
  refine ensures_bind (ensures_forEach fun node member => ?_) fun _ => keeps_report _
  exact ensures_bind (Tasks.ensures_poll signal _) fun _ => each node member

/-! ### Parts of a step -/

/-- The answer of a comparison at some call, where NaN counts as nothing. -/
def Answers (comparison : Comparison) (call a b : Nat) (answer : Option Float) : Prop :=
  ∃ raw, (comparison call a b).outcome = .ok raw ∧ raw.filter (!·.isNaN) = answer

/-- A comparison leaves the same behind whether it answers or not: it is counted and remembered, and the
signal that it raises is raised. -/
theorem after_compare (comparison : Comparison) (a b : Nat) (d : Descent) :
    (compare comparison a b d).2 = { d with
      calls := d.calls + 1
      evaluated := (a, b) :: d.evaluated
      signals := (comparison d.calls a b).raises.elim d.signals d.signals.raise } := by
  rw [compare]
  cases (comparison d.calls a b).outcome <;> cases (comparison d.calls a b).raises <;> rfl

theorem answers_of_compare {comparison : Comparison} {a b : Nat} {d d' : Descent}
    {answer : Option Float} (run : compare comparison a b d = (.ok answer, d')) :
    Answers comparison d.calls a b answer := by
  rw [compare] at run
  cases answered : (comparison d.calls a b).outcome with
  | error text =>
    simp only [answered] at run
    cases run
  | ok raw =>
    simp only [answered] at run
    cases run
    exact ⟨raw, answered, rfl⟩

theorem ensures_compare (comparison : Comparison) (a b : Nat) (t : Standing) :
    (compare comparison a b).Ensures (fun d => d.standing = t) fun answer d =>
      d.standing = { t with calls := t.calls + 1 } ∧ Answers comparison t.calls a b answer := by
  intro d answer d' stands run
  subst stands
  have left : d' = _ := (congrArg Prod.snd run).symm.trans (after_compare comparison a b d)
  refine ⟨?_, answers_of_compare run⟩
  rw [left]
  rfl

theorem ensures_remember (e : Encounter) (t : Standing) :
    (remember e).Ensures (fun d => d.standing = t) fun _ d =>
      d.standing = { t with encounters := e :: t.encounters } := by
  refine ensures_update fun d stands => ?_
  rw [← stands]
  rfl

theorem setIfInBounds_eq_modify {lists : Array NeighborList} {node : Nat} {list : NeighborList}
    (h : lists[node]? = some list) (f : NeighborList → NeighborList) :
    lists.setIfInBounds node (f list) = lists.modify node f := by
  apply Array.ext_getElem?
  intro i
  rw [Array.getElem?_setIfInBounds, Array.getElem?_modify]
  by_cases same : node = i
  · subst same
    obtain ⟨inside, -⟩ := Array.getElem?_eq_some_iff.mp h
    rw [if_pos rfl, if_pos rfl, if_pos inside, h]
    rfl
  · rw [if_neg same, if_neg same]

theorem ensures_offer (owner candidate : Nat) (similarity : Float) (t : Standing) :
    (offer owner candidate similarity).Ensures (fun d => d.standing = t) fun _ d =>
      d.standing = { t with lists := tell similarity t.lists (owner, candidate) }
        ∧ owner < t.lists.size := by
  intro d changed d' stands run
  have lists : t.lists = d.lists := by
    rw [← stands]
    rfl
  rw [offer] at run
  cases found : d.lists[owner]? with
  | none =>
    simp only [found] at run
    cases run
  | some list =>
    simp only [found] at run
    cases run
    obtain ⟨inside, -⟩ := Array.getElem?_eq_some_iff.mp found
    have told := setIfInBounds_eq_modify found fun l => (l.add owner candidate similarity).2
    refine ⟨?_, lists ▸ inside⟩
    rw [← stands]
    show Standing.mk (d.lists.setIfInBounds owner (list.add owner candidate similarity).2) _ _ _ = _
    rw [told]
    rfl

/-- An offer, whether or not it changes the list. -/
theorem ensures_discard_offer (owner candidate : Nat) (similarity : Float) (t : Standing) :
    (discard (offer owner candidate similarity) : Action Descent Unit).Ensures
      (fun d => d.standing = t) fun _ d =>
        d.standing = { t with lists := tell similarity t.lists (owner, candidate) }
          ∧ owner < t.lists.size :=
  ensures_discard (ensures_offer owner candidate similarity t)

end Descent

/-! ### Whole steps -/

namespace Lasting

open NeighborGraph.Action Descent

variable {P : Standing → Prop} {comparison : Comparison} {n : Nat}

theorem and {Q : Standing → Prop} (lasts : Lasting comparison n P)
    (lasts' : Lasting comparison n Q) : Lasting comparison n fun t => P t ∧ Q t := by
  refine ⟨fun t kept => lasts.sized t kept.1, fun t t' kept step => ?_⟩
  exact ⟨lasts.step t t' kept.1 step, lasts'.step t t' kept.2 step⟩

/-- No step counts updates. -/
theorem withCounts (lasts : Lasting comparison n P) (counts : List Nat) :
    Lasting comparison n fun t => P t ∧ t.updateCounts = counts := by
  refine ⟨fun t kept => lasts.sized t kept.1, ?_⟩
  intro t t' kept step
  refine ⟨lasts.step t t' kept.1 step, ?_⟩
  cases step with
  | passed => exact kept.2
  | met => exact kept.2
  | picked => exact kept.2

/-- Nodes that cannot be compared are passed. -/
theorem after_passed (lasts : Lasting comparison n P) {t : Standing} (kept : P t) (e : Encounter)
    (answer : Answers comparison t.calls e.nodes.1 e.nodes.2 none) : P (t.after e t.lists) := by
  obtain ⟨raw, answered, nothing⟩ := answer
  exact lasts.step t _ kept (.passed e raw answered nothing)

/-- Nodes that have a similarity meet. -/
theorem after_met (lasts : Lasting comparison n P) {t : Standing} (kept : P t) (e : Encounter)
    {similarity : Float}
    (answer : Answers comparison t.calls e.nodes.1 e.nodes.2 (some similarity))
    (different : e.nodes.1 ≠ e.nodes.2) (first : e.nodes.1 < t.lists.size)
    (second : e.nodes.2 < t.lists.size) :
    P (t.after e (e.offers.foldl (tell similarity) t.lists)) := by
  obtain ⟨raw, answered, filtered⟩ := answer
  obtain ⟨rfl, number⟩ := Option.filter_eq_some_iff.mp filtered
  rw [Bool.not_eq_true'] at number
  exact lasts.step t _ kept (.met e similarity answered number different first second)

end Lasting

end NeighborGraph
