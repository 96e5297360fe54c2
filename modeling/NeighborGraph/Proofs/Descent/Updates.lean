import NeighborGraph.Proofs.Descent.Ledger
import NeighborGraph.Proofs.Descent.Untouched

/-!
# Updates are acceptances

An iteration counts as its updates the offers of its joins that changed a list.  Here every phase is
followed with an eye on that count: only `Descent.offerCounted` adds to it, once for an offer that
the ledger has as accepted; what random nodes hear of is accepted without being counted, and nothing
else moves the count (`Descent.Uncounted`).
-/

namespace NeighborGraph

open NeighborGraph.Action NeighborList

namespace Descent

variable {α : Type}

/-! ### Actions that count nothing -/

/-- An action that leaves the count of updates as it is. -/
abbrev Uncounted (m : Action Descent α) : Prop := Leaves (·.updates) m

/-- Updates are counted by offers of joins and by nothing else. -/
theorem apart_updates : Apart (·.updates) := by
  refine ⟨⟨?_, ?_, ?_, ?_, ?_⟩, ?_, ?_, ?_, ?_⟩
  all_goals intros; rfl

/-! ### The count and the ledger -/

variable {f : Nat → Nat → Option Float} {n capacity : Nat} {P : Standing → Prop}

/-- A standing with a property, and with `before` acceptances more than updates at the least. -/
def Counted (f : Nat → Nat → Option Float) (n capacity : Nat) (P : Standing → Prop) (before : Nat)
    (d : Descent) : Prop :=
  P d.standing ∧ before + d.updates ≤ acceptances f n capacity (offered · d.encounters)

/-- An action of steps that counts nothing. -/
theorem counts_of_uncounted {before : Nat} {m : Action Descent α}
    (keeps : ∀ most, Keeps
      (fun t => P t ∧ most ≤ acceptances f n capacity (offered · t.encounters)) m)
    (uncounted : Uncounted m) :
    m.Ensures (Counted f n capacity P before) fun _ => Counted f n capacity P before := by
  intro d a d' ⟨kept, enough⟩ run
  have same : d'.updates = d.updates := uncounted d.updates d a d' rfl run
  obtain ⟨kept', enough'⟩ := keeps (before + d.updates) d a d' ⟨kept, enough⟩ run
  refine ⟨kept', ?_⟩
  rw [same]
  exact enough'

/-- A standing, and a count of updates. -/
def StandsAt (t : Standing) (updates : Nat) (d : Descent) : Prop :=
  d.standing = t ∧ d.updates = updates

theorem ensures_of_standsAt {before : Nat} {m : Action Descent α} {after : α → Descent → Prop}
    (h : ∀ t k, P t → before + k ≤ acceptances f n capacity (offered · t.encounters) →
      m.Ensures (StandsAt t k) after) :
    m.Ensures (Counted f n capacity P before) after := by
  intro d a d' ⟨kept, enough⟩ run
  exact h d.standing d.updates kept enough d a d' ⟨rfl, rfl⟩ run

theorem ensures_offerCounted_changes (owner candidate : Nat) (similarity : Float) (t : Standing)
    (k : Nat) :
    (offerCounted owner candidate similarity).Ensures (StandsAt t k) fun _ d =>
      StandsAt { t with lists := tell similarity t.lists (owner, candidate) }
        (k + changes similarity t.lists (owner, candidate)) d ∧ owner < t.lists.size := by
  have counts : (offerCounted owner candidate similarity).Ensures (StandsAt t k) fun _ d =>
      d.updates = k + changes similarity t.lists (owner, candidate) := by
    refine ensures_bind (R := fun changed d => d.updates = k
      ∧ changed.toNat = changes similarity t.lists (owner, candidate)) ?_ fun changed => ?_
    · rintro d changed d' ⟨stands, same⟩ run
      have lists : t.lists = d.lists := (congrArg Standing.lists stands).symm
      rw [offer] at run
      rw [changes, lists]
      cases found : d.lists[owner]? with
      | none =>
        simp only [found] at run
        cases run
      | some list =>
        simp only [found] at run
        cases run
        exact ⟨same, rfl⟩
    · refine ensures_of_fact fun flag => ?_
      rw [← flag]
      cases changed with
      | true => exact ensures_update fun d same => congrArg (· + 1) same
      | false => exact ensures_pure fun d same => same
  refine ((ensures_offerCounted owner candidate similarity t).and counts).mono
    (fun d stands => ⟨stands.1, stands⟩) ?_
  rintro _ d ⟨⟨stands, inside⟩, counted⟩
  exact ⟨⟨stands, counted⟩, inside⟩

section Join

variable {rule : JoinRule} (function : rule.comparison = .ofFunction f)
  (symmetric : ∀ a b, f a b = f b a) (lasts : Lasting rule.comparison n P)
  (replayed : ∀ t, P t → Replayed f n capacity t)
include function symmetric lasts replayed

/-- The updates of a pair are its acceptances. -/
theorem counts_joinPair (before a b : Nat) :
    (joinPair rule a b).Ensures (Counted f n capacity P before)
      fun _ => Counted f n capacity P before := by
  have counts : (joinPair rule a b).Ensures (Counted f n capacity P before) fun _ d =>
      before + d.updates ≤ acceptances f n capacity (offered · d.encounters) := by
    refine ensures_ite (fun _ => ensures_pure fun _ counted => counted.2) fun different => ?_
    refine ensures_of_standsAt fun t k kept enough => ?_
    refine ensures_bind (R := fun _ => StandsAt t k) (ensures_update fun _ stands => stands)
      fun _ => ?_
    refine ensures_bind (R := fun _ => StandsAt
      { t with encounters := .joined a b :: t.encounters } k) ?_ fun _ => ?_
    · refine ensures_update fun d stands => ⟨?_, stands.2⟩
      rw [← stands.1]
      rfl
    refine ensures_bind (R := fun answer d => StandsAt
      { t with encounters := .joined a b :: t.encounters, calls := t.calls + 1 } k d
        ∧ Answers rule.comparison t.calls a b answer) ?_ fun answer => ?_
    · refine ((ensures_compare rule.comparison a b _).and
        (leaves_compare apart_updates rule.comparison a b k)).mono (fun _ stands => stands) ?_
      exact fun _ _ ⟨⟨stands, answered⟩, same⟩ => ⟨⟨stands, same⟩, answered⟩
    cases answer with
    | none =>
      refine ensures_pure fun d ⟨⟨stands, same⟩, _⟩ => ?_
      rw [same, show d.encounters = .joined a b :: t.encounters from
        congrArg Standing.encounters stands]
      exact Nat.le_trans enough (acceptances_cons _ _)
    | some s =>
      refine ensures_of_fact fun ⟨raw, answered, filtered⟩ => ?_
      obtain ⟨rfl, number⟩ := Option.filter_eq_some_iff.mp filtered
      rw [Bool.not_eq_true'] at number
      rw [function] at answered
      have value : f a b = some s := Except.ok.inj answered
      refine ensures_bind (ensures_offerCounted_changes a b s _ _) fun _ => ?_
      refine ensures_of_fact fun first => ?_
      refine (ensures_offerCounted_changes b a s _ _).mono (fun _ stands => stands) ?_
      intro _ d ⟨⟨stands, same⟩, second⟩
      -- both offers are in the ledger, in the order in which they were made
      have size : t.lists.size = n := (replayed t kept).size
      have told := follows_tell number value (replayed t kept).follows
      have toldSize : (tell s t.lists (a, b)).size = n := Array.size_modify.trans size
      have one := acceptances_add number value (replayed t kept).follows size (size ▸ first)
      have two := acceptances_add number ((symmetric b a).trans value) told toldSize
        (toldSize ▸ second)
      have both : (Offers.add (Offers.add (offered · t.encounters) (a, b)) (b, a))
          = (offered · (.joined a b :: t.encounters)) :=
        foldl_offers (e := .joined a b) different t.encounters
      rw [same, show d.encounters = .joined a b :: t.encounters from
        congrArg Standing.encounters stands, ← both, two, one]
      dsimp only
      omega
  refine ((keeps_joinPair lasts a b).and counts).mono (fun d counted => ⟨counted.1, counted⟩) ?_
  exact fun _ d counted => counted

theorem counts_joinNode (before node : Nat) :
    (joinNode rule node).Ensures (Counted f n capacity P before)
      fun _ => Counted f n capacity P before := by
  have lasts' (most : Nat) := lasts.withAcceptances f capacity most
  refine ensures_bind (counts_of_uncounted (fun _ => keeps_gather _ node)
    (leaves_gather apart_updates.toAside _ node)) fun candidates => ?_
  refine ensures_bind (ensures_forEach fun pair _ => ?_) fun _ => ensures_repeatTimes ?_ _
  · exact counts_joinPair function symmetric lasts replayed before pair.1 pair.2
  · exact counts_of_uncounted (fun most => keeps_joinRandom (lasts' most) node)
      (leaves_joinRandom apart_updates rule node)

end Join

end Descent

namespace Search

open Descent

variable {s : Search} {f : Nat → Nat → Option Float} {capacity : Nat} {P : Standing → Prop}

/-- The updates of an iteration are acceptances of that iteration. -/
theorem counts_iteration (function : s.comparison = .ofFunction f)
    (symmetric : ∀ a b, f a b = f b a) (lasts : Lasting s.comparison s.nodeCount P)
    (replayed : ∀ t, P t → Replayed f s.nodeCount capacity t) {before : Nat}
    (earlier : ∀ t, P t → before ≤ acceptances f s.nodeCount capacity (offered · t.encounters))
    (signal : Nat) :
    (s.iteration signal).Ensures (fun d => P d.standing)
      fun _ => Counted f s.nodeCount capacity P before := by
  have start (d : Descent) (kept : P d.standing) :
      Counted f s.nodeCount capacity P before { d with updates := 0, pairs := 0 } :=
    ⟨kept, earlier d.standing kept⟩
  refine ensures_bind (keeps_phase (keeps_splitTiles lasts _ _ signal)) fun _ => ?_
  refine ensures_bind (keeps_phase ?_) fun _ => ?_
  · refine ensures_bind (keeps_update fun _ => rfl) fun _ => ?_
    exact keeps_reverseMaps s.nodeCount _ signal
  have reports (event : ProgressEvent) : (report event).Ensures
      (Counted f s.nodeCount capacity P before) fun _ => Counted f s.nodeCount capacity P before :=
    counts_of_uncounted (fun _ => keeps_report event) (leaves_report apart_updates.toAside event)
  refine ensures_bind (R := fun _ d => P d.standing) (keeps_report _) fun _ => ?_
  refine ensures_bind (R := fun _ => Counted f s.nodeCount capacity P before) (ensures_bind
    (R := fun _ => Counted f s.nodeCount capacity P before) (ensures_update start) fun _ => ?_)
    fun _ => ?_
  · refine ensures_overTiles (fun _ _ counted => counted)
      (counts_of_uncounted (fun _ => keeps_drawSeed)
        (leaves_drawSeed apart_updates.toAside))
      (fun seed => counts_of_uncounted (fun _ => keeps_reseed seed)
        (leaves_reseed apart_updates.toAside seed)) ?_
    intro signal p _
    refine ensures_bind (ensures_forEach fun node _ => ?_) fun _ => reports _
    refine ensures_bind (Tasks.ensures_poll signal _) fun _ => ?_
    have function : s.joinRule.comparison = .ofFunction f := function
    exact counts_joinNode function symmetric lasts replayed before node
  · exact ensures_bind (reports _) fun _ => ensures_pure fun _ counted => counted

end Search

end NeighborGraph
