import NeighborGraph.Proofs.Descent.Draws
import NeighborGraph.Proofs.Descent.Lists
import NeighborGraph.Proofs.Descent.Shares
import NeighborGraph.Proofs.Schedule.Tasks

/-!
# A descent on firm footing

A step of a descent can fail because a node has no list or no candidates, because a node is its own
candidate, because a draw is asked for the impossible, because two nodes cannot even be compared, or
because the signal does not run.  All but the last are ruled out by what the step starts from: there is
a list for every node, the candidate maps name other nodes only (`NodeMap.Sane`), and the signals the
tasks look at follow the signal of the run.  Together this is `Firm`, which every step leaves as it was
(`Descent.Firmly`).

One step needs more.  Old and new candidates come from the lists and go to slots of their own, so splitting
a list relies on sound lists, and on a share that has the slots of its nodes
(`Descent.delivers_splitList`).
-/

namespace NeighborGraph

open NeighborGraph.Action

/-! ### Candidate maps -/

namespace NodeMap

/-- Each of `n` nodes has entries, and they are other nodes. -/
structure Sane (n : Nat) (m : NodeMap) : Prop where
  size : m.size = n
  others : ∀ v xs, m[v]? = some xs → ∀ u ∈ xs, Sampler.Other n v u

variable {n : Nat} {m : NodeMap}

theorem sane_empty (n : Nat) : Sane n (empty n) := by
  refine ⟨Array.size_replicate, fun v xs found u member => ?_⟩
  rw [eq_of_getElem?_replicate found] at member
  exact absurd member (Array.not_mem_empty u)

theorem Sane.entries (h : Sane n m) {v : Nat} (inside : v < n) :
    ∃ xs, m.entries v = .ok xs ∧ ∀ u ∈ xs, Sampler.Other n v u := by
  obtain ⟨xs, found⟩ := exists_entry h.size inside
  refine ⟨xs.toList, ?_, fun u member => ?_⟩
  · rw [NodeMap.entries, found]
  · exact h.others v xs found u (Array.mem_toList_iff.mp member)

theorem Sane.replace (h : Sane n m) {v : Nat} {xs : List Nat}
    (others : ∀ u ∈ xs, Sampler.Other n v u) : Sane n (m.setIfInBounds v xs.toArray) := by
  refine ⟨Array.size_setIfInBounds.trans h.size, fun w ys found u member => ?_⟩
  rw [Array.getElem?_setIfInBounds] at found
  split at found
  · next same =>
    split at found
    · subst same
      rw [← Option.some.inj found] at member
      exact others u (List.mem_toArray.mp member)
    · cases found
  · exact h.others w ys found u member

/-- Entering a node for another one. -/
theorem Sane.enter (h : Sane n m) {node target : Nat} (inside : node < n)
    (different : target ≠ node) : Sane n (m.modify target (·.push node)) := by
  refine ⟨Array.size_modify.trans h.size, fun w ys found u member => ?_⟩
  rw [Array.getElem?_modify] at found
  split at found
  · next same =>
    obtain ⟨xs, before, rfl⟩ := Option.map_eq_some_iff.mp found
    subst same
    rcases Array.mem_push.mp member with earlier | rfl
    · exact h.others target xs before u earlier
    · exact ⟨inside, different.symm⟩
  · exact h.others w ys found u member

/-- A node can be entered for all other nodes. -/
theorem delivers_enter {node : Nat} (inside : node < n) {targets : List Nat}
    (others : ∀ u ∈ targets, Sampler.Other n node u) :
    (NodeMap.enter node targets).Delivers (Sane n) (fun _ => Sane n) fun _ _ => False := by
  refine delivers_forEach fun target member => ?_
  intro m sane
  obtain ⟨small, different⟩ := others target member
  refine .inl ⟨(), _, ?_, sane.enter inside different⟩
  rw [enterFor, if_neg different, if_pos (sane.size.symm ▸ small)]

end NodeMap

/-! ### Footing -/

/-- What the steps of a descent stand on, but for what is in the lists. -/
structure Footing where
  signals : Signals
  /-- Number of lists. -/
  size : Nat
  old : NodeMap
  new : NodeMap
  reverseOld : NodeMap
  reverseNew : NodeMap

/-- A footing for `n` nodes and for tasks that look at the signal `below`. -/
structure Firm (n known signal below : Nat) (t : Footing) : Prop where
  size : t.size = n
  old : t.old.Sane n
  new : t.new.Sane n
  reverseOld : t.reverseOld.Sane n
  reverseNew : t.reverseNew.Sane n
  signals : t.signals.Follows known signal below

/-- A comparison that crashes for no two different nodes and raises no signal but known ones. -/
structure Comparison.Calm (comparison : Comparison) (n known : Nat) : Prop where
  answers : ∀ call a b, a < n → b < n → a ≠ b →
    ∃ answer, (comparison call a b).outcome = .ok answer
  raises : ∀ call a b k, a < n → b < n → a ≠ b →
    (comparison call a b).raises = some k → k < known

namespace Descent

/-- What the descent stands on. -/
def footing (d : Descent) : Footing where
  signals := d.signals
  size := d.lists.size
  old := d.old
  new := d.new
  reverseOld := d.reverseOld
  reverseNew := d.reverseNew

instance : LawfulSignals Descent := ⟨fun _ _ => rfl⟩

/-- An action stays on firm footing, unless the signal of the run stops. -/
abbrev Firmly {α : Type} (n known signal below : Nat) (m : Action Descent α) : Prop :=
  m.Delivers (fun d => Firm n known signal below d.footing)
    (fun _ d => Firm n known signal below d.footing) (Tasks.Stopped signal)

variable {α : Type} {n known signal below : Nat} {comparison : Comparison}

/-! ### Parts of a step -/

theorem firmly_pure (a : α) : Firmly n known signal below (Pure.pure a) :=
  delivers_pure fun _ firm => firm

theorem firmly_read (f : Descent → α) : Firmly n known signal below (read f) :=
  delivers_read fun _ firm => firm

/-- A change of anything else. -/
theorem firmly_update {f : Descent → Descent} (same : ∀ d, (f d).footing = d.footing) :
    Firmly n known signal below (update f) := by
  refine delivers_update fun d firm => ?_
  rw [same]
  exact firm

theorem delivers_draw {m : Random.Draw α} {result : α → Prop} (total : m.Total)
    (yields : m.Yields result) :
    (draw m).Delivers (fun d => Firm n known signal below d.footing)
      (fun a d => Firm n known signal below d.footing ∧ result a) (Tasks.Stopped signal) :=
  delivers_zoom total yields fun _ _ _ firm known => ⟨firm, known⟩

/-- A calm comparison always answers, and the signals it may raise are not those of tasks. -/
theorem firmly_compare (calm : comparison.Calm n known) {a b : Nat} (first : a < n) (second : b < n)
    (different : a ≠ b) : Firmly n known signal below (compare comparison a b) := by
  intro d firm
  obtain ⟨answer, answered⟩ := calm.answers d.calls a b first second different
  have result : (compare comparison a b d).1 = .ok (answer.filter (!·.isNaN)) := by
    simp only [compare, answered]
  refine .inl ⟨_, (compare comparison a b d).2, Prod.ext result rfl, ?_⟩
  rw [after_compare]
  refine ⟨firm.size, firm.old, firm.new, firm.reverseOld, firm.reverseNew, ?_⟩
  cases raises : (comparison d.calls a b).raises with
  | none => exact firm.signals
  | some k => exact firm.signals.raise (calm.raises _ a b k first second different raises)

theorem firmly_offer {owner : Nat} (inside : owner < n) (candidate : Nat) (similarity : Float) :
    Firmly n known signal below (offer owner candidate similarity) := by
  intro d firm
  obtain ⟨list, found⟩ := exists_entry firm.size inside
  let added := list.add owner candidate similarity
  let d' : Descent := { d with lists := d.lists.setIfInBounds owner added.2 }
  refine .inl ⟨added.1, d', ?_, ?_⟩
  · rw [offer]
    simp only [found]
    rfl
  · refine ⟨?_, firm.old, firm.new, firm.reverseOld, firm.reverseNew, firm.signals⟩
    exact Array.size_setIfInBounds.trans firm.size

/-! ### Random candidates -/

theorem firmly_seedWith (calm : comparison.Calm n known) {node candidate : Nat} (inside : node < n)
    (other : Sampler.Other n node candidate) :
    Firmly n known signal below (seedWith comparison node candidate) := by
  refine delivers_bind (firmly_update fun _ => rfl) fun _ => ?_
  refine delivers_bind (firmly_update fun _ => rfl) fun _ => ?_
  refine delivers_bind (firmly_compare calm inside other.1 other.2.symm) fun answer => ?_
  cases answer with
  | none => exact firmly_pure ()
  | some similarity => exact delivers_discard (firmly_offer inside candidate similarity)

theorem firmly_requireList {node : Nat} (inside : node < n) :
    Firmly n known signal below (requireList node) := by
  intro d firm
  have size : d.lists.size = n := firm.size
  refine .inl ⟨(), d, ?_, firm⟩
  rw [requireList, if_pos (size.symm ▸ inside)]

theorem firmly_seedNode {g : CompressedGraph} (calm : comparison.Calm g.size known) (sampler : Sampler)
    (walkable : g.Walkable) (amount : Nat) {node : Nat} (inside : node < g.size) :
    Firmly g.size known signal below (draw (sampler.draw g node amount) >>= fun candidates =>
      requireList node >>= fun _ => forEach candidates (seedWith comparison node)) := by
  have drawn := sampler.draw_total walkable inside amount
  refine delivers_bind (delivers_draw drawn (sampler.draw_yields g node amount)) fun candidates => ?_
  refine delivers_of_fact fun others => ?_
  refine delivers_bind (firmly_requireList inside) fun _ => ?_
  exact delivers_forEach fun candidate member => firmly_seedWith calm inside (others candidate member)

/-! ### Candidates of an iteration -/

/-- Neighbors in sound lists are other nodes, so old and new candidates are.  Both maps have a slot for each
of them, which the task on a range finds. -/
theorem delivers_splitList {capacity node : Nat} (inside : node < n) {p : NodeRange}
    (member : node ∈ p.nodes) (sampleSize : Nat) :
    (splitList sampleSize (.own p) node).Delivers
      (fun d => Firm n known signal below d.footing ∧ Sound comparison n capacity d.standing)
      (fun _ d => Firm n known signal below d.footing) (Tasks.Stopped signal) := by
  refine delivers_bind (R := fun found d => Firm n known signal below d.footing
    ∧ ∃ list, found = some list ∧ ∀ u ∈ list.ids, Sampler.Other n node u) ?_ fun found => ?_
  · refine delivers_read fun d ⟨firm, sound⟩ => ⟨firm, ?_⟩
    obtain ⟨list, found⟩ := exists_entry firm.size inside
    have own := sound.lists node list found
    refine ⟨list, found, fun u member => ?_⟩
    obtain ⟨x, entry, id⟩ := List.mem_map.mp member
    refine ⟨id ▸ (own.known x entry).1, fun same => own.valid.others ?_⟩
    exact same ▸ member
  · refine delivers_of_fact fun ⟨list, here, others⟩ => ?_
    subst here
    refine delivers_bind (R := fun places d => Firm n known signal below d.footing
      ∧ places = .ok (node, node)) (delivers_read fun d firm => ⟨firm, ?_⟩) fun places => ?_
    · exact Share.places_own member (firm.old.size.symm ▸ inside) (firm.new.size.symm ▸ inside)
    refine delivers_of_fact fun own => ?_
    rw [own, check_ok_bind]
    refine delivers_bind
      (delivers_draw (list.split_total sampleSize) (list.split_yields_ids sampleSize)) fun parts => ?_
    refine delivers_of_fact fun ⟨old, new⟩ => delivers_update fun d firm => ?_
    refine ⟨?_, firm.old.replace fun u member => others u (old member),
      firm.new.replace fun u member => others u (new member), firm.reverseOld, firm.reverseNew,
      firm.signals⟩
    exact Array.size_setIfInBounds.trans firm.size

/-- A map that is taken out and put back. -/
theorem firmly_overMap {take : Descent → NodeMap × Descent} {put : NodeMap → Descent → Descent}
    {m : Action NodeMap Unit}
    (enters : m.Delivers (NodeMap.Sane n) (fun _ => NodeMap.Sane n) fun _ _ => False)
    (taken : ∀ d, Firm n known signal below d.footing → NodeMap.Sane n (take d).1)
    (back : ∀ d map, Firm n known signal below d.footing → NodeMap.Sane n map →
      Firm n known signal below (put map (take d).2).footing) :
    Firmly n known signal below (overMap take put m) := by
  intro d firm
  rcases enters (take d).1 (taken d firm) with ⟨a, map, run, sane⟩ | ⟨-, -, -, none⟩
  · exact .inl ⟨a, put map (take d).2, overMap_eq rfl run, back d map firm sane⟩
  · exact none.elim

/-- The candidates of a node are found, and they are other nodes. -/
theorem delivers_entries {node : Nat} (inside : node < n) {map : Descent → NodeMap}
    (sane : ∀ d, Firm n known signal below d.footing → NodeMap.Sane n (map d)) :
    (read fun d => (map d).entries node).Delivers (fun d => Firm n known signal below d.footing)
      (fun r d => Firm n known signal below d.footing
        ∧ ∃ xs, r = .ok xs ∧ ∀ u ∈ xs, Sampler.Other n node u) (Tasks.Stopped signal) :=
  delivers_read fun d firm => ⟨firm, (sane d firm).entries inside⟩

theorem firmly_reverseNode {node : Nat} (inside : node < n) :
    Firmly n known signal below (reverseNode node) := by
  refine delivers_bind (delivers_entries inside fun _ firm => firm.old) fun old => ?_
  refine delivers_of_fact fun ⟨xs, found, others⟩ => ?_
  rw [found, check_ok_bind]
  refine delivers_bind (firmly_overMap (NodeMap.delivers_enter inside others)
    (fun _ firm => firm.reverseOld) fun d map firm sane => ?_) fun _ => ?_
  · exact ⟨firm.size, firm.old, firm.new, sane, firm.reverseNew, firm.signals⟩
  refine delivers_bind (delivers_entries inside fun _ firm => firm.new) fun new => ?_
  refine delivers_of_fact fun ⟨xs, found, others⟩ => ?_
  rw [found, check_ok_bind]
  refine firmly_overMap (NodeMap.delivers_enter inside others)
    (fun _ firm => firm.reverseNew) fun d map firm sane => ?_
  exact ⟨firm.size, firm.old, firm.new, firm.reverseOld, sane, firm.signals⟩

/-! ### Joins -/

theorem firmly_offerCounted {owner : Nat} (inside : owner < n) (candidate : Nat)
    (similarity : Float) : Firmly n known signal below (offerCounted owner candidate similarity) := by
  refine delivers_bind (firmly_offer inside candidate similarity) fun changed => ?_
  exact delivers_ite (fun _ => firmly_update fun _ => rfl) fun _ => firmly_pure ()

theorem firmly_joinPair {rule : JoinRule} (calm : rule.comparison.Calm n known) {a b : Nat}
    (first : a < n) (second : b < n) : Firmly n known signal below (joinPair rule a b) := by
  refine delivers_ite (fun _ => firmly_pure ()) fun different => ?_
  refine delivers_bind (firmly_update fun _ => rfl) fun _ => ?_
  refine delivers_bind (firmly_update fun _ => rfl) fun _ => ?_
  refine delivers_bind (firmly_compare calm first second different) fun answer => ?_
  cases answer with
  | none => exact firmly_pure ()
  | some similarity =>
    refine delivers_bind (firmly_offerCounted first b similarity) fun _ => ?_
    exact firmly_offerCounted second a similarity

theorem firmly_perturbs {rate : Float} (unit : 0.0 ≤ rate ∧ rate ≤ 1.0) :
    Firmly n known signal below (perturbs rate) := by
  refine delivers_ite (fun _ => ?_) fun _ => firmly_pure false
  exact (delivers_draw (Random.coin_total unit.1 unit.2) (yields_any _)).mono
    (fun _ firm => firm) fun _ _ drawn => drawn.1

/-- There is another node to draw. -/
theorem firmly_joinRandom {rule : JoinRule} (calm : rule.comparison.Calm n known)
    (unit : 0.0 ≤ rule.perturbationRate ∧ rule.perturbationRate ≤ 1.0) (several : 2 ≤ n)
    {node : Nat} (inside : node < n) : Firmly n known signal below (joinRandom rule node) := by
  refine delivers_bind (R := fun count d => Firm n known signal below d.footing ∧ count = n)
    (delivers_read fun _ firm => ⟨firm, firm.size⟩) fun count => ?_
  refine delivers_of_fact fun size => ?_
  subst size
  have drawn : (Random.below64 (count - 1)).Total := Random.below64_total (by omega)
  refine delivers_bind (delivers_draw drawn (Random.below64_yields _)) fun place => ?_
  refine delivers_of_fact fun small => ?_
  let other := if node ≤ place then place + 1 else place
  obtain ⟨reached, different⟩ : Sampler.Other count node other := Sampler.other_of_lt node small
  refine delivers_bind (firmly_update fun _ => rfl) fun _ => ?_
  refine delivers_bind (firmly_compare calm inside reached different.symm) fun answer => ?_
  cases answer with
  | none => exact firmly_update fun _ => rfl
  | some similarity =>
    refine delivers_bind (R := fun _ d => Firm count known signal below d.footing)
      (delivers_discard (firmly_offer inside other similarity)) fun _ => ?_
    refine delivers_bind (firmly_perturbs unit) fun heard => ?_
    refine delivers_bind (firmly_update fun _ => rfl) fun _ => ?_
    refine delivers_ite (fun _ => ?_) fun _ => firmly_pure ()
    exact delivers_discard (firmly_offer reached node similarity)

/-- Candidates of one kind, in both directions, are found, and whatever comes next may rely on it that
they are nodes. -/
theorem delivers_combined {node : Nat} (inside : node < n) (sampleSize : Nat)
    {forward reverse : Descent → NodeMap}
    (sane : ∀ d, Firm n known signal below d.footing → NodeMap.Sane n (forward d))
    (sane' : ∀ d, Firm n known signal below d.footing → NodeMap.Sane n (reverse d))
    {next : List Nat → Action Descent α} {after : α → Descent → Prop}
    (h : ∀ xs, (∀ u ∈ xs, u < n) →
      (next xs).Delivers (fun d => Firm n known signal below d.footing) after
        (Tasks.Stopped signal)) :
    ((read fun d => (forward d).entries node) >>= fun forward =>
      (read fun d => (reverse d).entries node) >>= fun reverse =>
      check forward >>= fun forward => check reverse >>= fun reverse =>
      draw (combine forward reverse sampleSize) >>= next).Delivers
        (fun d => Firm n known signal below d.footing) after (Tasks.Stopped signal) := by
  refine delivers_bind (delivers_entries inside sane) fun r => ?_
  refine delivers_of_fact fun ⟨xs, found, others⟩ => ?_
  refine delivers_bind (delivers_entries inside sane') fun r' => ?_
  refine delivers_of_fact fun ⟨ys, found', others'⟩ => ?_
  rw [found, found', check_ok_bind, check_ok_bind]
  refine delivers_bind (delivers_draw (combine_total xs ys sampleSize)
    (combine_yields xs ys sampleSize)) fun picked => ?_
  refine delivers_of_fact fun part => h picked fun u member => ?_
  rcases List.mem_append.mp (part member) with before | behind
  · exact (others u before).1
  · exact (others' u behind).1

theorem delivers_gather {node : Nat} (inside : node < n) (sampleSize : Nat) :
    (gather sampleSize node).Delivers (fun d => Firm n known signal below d.footing)
      (fun found d => Firm n known signal below d.footing ∧ ∀ u ∈ found.1 ++ found.2, u < n)
      (Tasks.Stopped signal) := by
  refine delivers_combined inside sampleSize (fun _ firm => firm.new)
    (fun _ firm => firm.reverseNew) fun new newer => ?_
  refine delivers_combined inside sampleSize (fun _ firm => firm.old)
    (fun _ firm => firm.reverseOld) fun old older => ?_
  refine delivers_pure fun d firm => ⟨firm, fun u member => ?_⟩
  rcases List.mem_append.mp member with now | before
  · exact newer u now
  · exact older u before

theorem firmly_joinNode {rule : JoinRule} (calm : rule.comparison.Calm n known)
    (unit : 0.0 ≤ rule.perturbationRate ∧ rule.perturbationRate ≤ 1.0) (several : 2 ≤ n)
    {node : Nat} (inside : node < n) : Firmly n known signal below (joinNode rule node) := by
  refine delivers_bind (delivers_gather inside rule.sampleSize) fun candidates => ?_
  refine delivers_of_fact fun nodes => ?_
  refine delivers_bind (delivers_forEach fun pair member => ?_) fun _ => ?_
  · obtain ⟨first, second⟩ := mem_candidatePairs member
    exact firmly_joinPair calm (nodes pair.1 first) (nodes pair.2 second)
  · exact delivers_repeatTimes (firmly_joinRandom calm unit several inside) rule.randomJoins

end Descent

end NeighborGraph
