import NeighborGraph.Proofs.Action.Maintains
import NeighborGraph.Proofs.Descent.Footing
import NeighborGraph.Proofs.Descent.Run

/-!
# Only different nodes of the graph are compared

A comparison is called for two nodes that come from somewhere: a range, a sampler, a random number, the
lists, or the candidate maps that are made from the lists.  All of them name other nodes of the graph
only (`Grounded`), and so do the pairs that were compared.  No step breaks that, whatever the comparison
answers, and a step that fails does not either.  So it holds of the state that any run ends in
(`Search.grounded_run`), no matter what made the run fail, and for any graph, settings and signals.
-/

namespace NeighborGraph

open NeighborGraph.Action

/-- Where the nodes that are compared come from, and which ones have been. -/
structure Ground where
  lists : Array NeighborList
  old : NodeMap
  new : NodeMap
  reverseOld : NodeMap
  reverseNew : NodeMap
  calls : Nat
  evaluated : List (Nat × Nat)

/-- Every node that is named for a node is another one of `n`, and all pairs that were compared are. -/
structure Grounded (n : Nat) (t : Ground) : Prop where
  size : t.lists.size = n
  lists : Each (fun v l => ∀ x ∈ l.entries, Sampler.Other n v x.id) t.lists
  old : t.old.Sane n
  new : t.new.Sane n
  reverseOld : t.reverseOld.Sane n
  reverseNew : t.reverseNew.Sane n
  evaluated : ∀ pair ∈ t.evaluated, pair.1 < n ∧ Sampler.Other n pair.1 pair.2
  counted : t.evaluated.length = t.calls

namespace NodeMap

variable {n : Nat} {m : NodeMap}

/-- A node that has entries is one of `n`, and its entries are others. -/
theorem Sane.of_entries (h : Sane n m) {v : Nat} {xs : List Nat} (found : m.entries v = .ok xs) :
    v < n ∧ ∀ u ∈ xs, Sampler.Other n v u := by
  rw [NodeMap.entries] at found
  cases entry : m[v]? with
  | none =>
    rw [entry] at found
    cases found
  | some ys =>
    rw [entry] at found
    cases found
    obtain ⟨inside, -⟩ := Array.getElem?_eq_some_iff.mp entry
    exact ⟨h.size ▸ inside, fun u member => h.others v ys entry u (Array.mem_toList_iff.mp member)⟩

/-- A node that is no other node's candidate is not entered, and leaves the map as it was. -/
theorem maintains_enter {node : Nat} (inside : node < n) (targets : List Nat) :
    (enter node targets).Maintains (Sane n) fun _ => True := by
  refine maintains_forEach fun target _ => ?_
  intro m sane
  refine ⟨?_, fun _ _ => trivial⟩
  rw [enterFor]
  split
  · exact sane
  · next different =>
    split
    · exact sane.enter inside different
    · exact sane

end NodeMap

namespace Descent

/-- Where the nodes that the descent compares come from. -/
def ground (d : Descent) : Ground where
  lists := d.lists
  old := d.old
  new := d.new
  reverseOld := d.reverseOld
  reverseNew := d.reverseNew
  calls := d.calls
  evaluated := d.evaluated

/-- An action compares only different nodes of `n`, whether or not it succeeds. -/
abbrev StaysInRange {α : Type} (n : Nat) (m : Action Descent α) (result : α → Prop) : Prop :=
  m.Maintains (fun d => Grounded n d.ground) result

variable {α : Type} {n : Nat} {comparison : Comparison}

/-! ### Parts of a step -/

/-- A change of anything else. -/
theorem inRange_update {f : Descent → Descent} (same : ∀ d, (f d).ground = d.ground) :
    StaysInRange n (update f) fun _ => True := by
  refine maintains_update fun d grounded => ?_
  rw [same]
  exact grounded

theorem inRange_draw {m : Random.Draw α} {result : α → Prop} (yields : m.Yields result) :
    StaysInRange n (draw m) result :=
  maintains_zoom yields fun _ _ grounded => grounded

/-- Any stream will do; to look into the one at hand would mean to compute it. -/
theorem inRange_reseed (seed : UInt64) : StaysInRange n (reseed seed) fun _ => True := by
  have any (stream : Random.Stream) :
      StaysInRange n (update fun d => { d with stream }) fun _ => True := inRange_update fun _ => rfl
  exact any _

theorem inRange_report (event : ProgressEvent) : StaysInRange n (report event) fun _ => True :=
  inRange_update fun _ => rfl

theorem inRange_note (level : LogLevel) (text : String) :
    StaysInRange n (note level text) fun _ => True :=
  inRange_update fun _ => rfl

theorem inRange_overNodes {signal : Nat} {p : NodeRange} {f : Nat → Action Descent Unit}
    (each : ∀ node ∈ p.nodes, StaysInRange n (f node) fun _ => True) :
    StaysInRange n (overNodes signal p f) fun _ => True := by
  refine maintains_bind (maintains_forEach fun node member => ?_)
    fun _ _ => inRange_report _
  exact maintains_bind (Tasks.maintains_poll signal _) fun _ _ => each node member

/-- What is compared is remembered, answer or not. -/
theorem inRange_compare {a b : Nat} (first : a < n) (second : Sampler.Other n a b) :
    StaysInRange n (compare comparison a b) fun _ => True := by
  intro d grounded
  refine ⟨?_, fun _ _ => trivial⟩
  show Grounded n (compare comparison a b d).2.ground
  rw [after_compare]
  refine { grounded with evaluated := ?_, counted := congrArg (· + 1) grounded.counted }
  intro pair member
  rcases List.mem_cons.mp member with rfl | before
  · exact ⟨first, second⟩
  · exact grounded.evaluated pair before

theorem inRange_offer {owner candidate : Nat} (other : Sampler.Other n owner candidate)
    (similarity : Float) : StaysInRange n (offer owner candidate similarity) fun _ => True := by
  intro d grounded
  refine ⟨?_, fun _ _ => trivial⟩
  rw [offer]
  cases found : d.lists[owner]? with
  | none => exact grounded
  | some list =>
    have told := setIfInBounds_eq_modify found fun l => (l.add owner candidate similarity).2
    refine { grounded with size := ?_, lists := ?_ }
    · exact Array.size_setIfInBounds.trans grounded.size
    · show Each _ (d.lists.setIfInBounds owner (list.add owner candidate similarity).2)
      rw [told]
      refine grounded.lists.modify (fun l others x member => ?_) fun _ _ _ others => others
      rcases NeighborList.mem_add member with rfl | before
      · exact other
      · exact others x before

/-! ### Random candidates -/

theorem inRange_seedWith {node candidate : Nat} (inside : node < n)
    (other : Sampler.Other n node candidate) :
    StaysInRange n (seedWith comparison node candidate) fun _ => True := by
  refine maintains_bind (inRange_update fun _ => rfl) fun _ _ => ?_
  refine maintains_bind (inRange_update fun _ => rfl) fun _ _ => ?_
  refine maintains_bind (inRange_compare inside other) fun answer _ => ?_
  cases answer with
  | none => exact maintains_pure trivial
  | some similarity => exact maintains_discard (inRange_offer other similarity)

theorem inRange_requireList (node : Nat) : StaysInRange n (requireList node) fun _ => node < n := by
  intro d grounded
  have size : d.lists.size = n := grounded.size
  rw [requireList]
  by_cases inside : node < d.lists.size
  · rw [if_pos inside]
    exact ⟨grounded, fun _ _ => size ▸ inside⟩
  · rw [if_neg inside]
    exact ⟨grounded, fun _ failed => by cases failed⟩

/-- The list of the node is looked for before the first comparison. -/
theorem inRange_seedLists (sampler : Sampler) {g : CompressedGraph} (amount signal : Nat)
    (p : NodeRange) :
    StaysInRange g.size (seedLists sampler g comparison amount signal p) fun _ => True := by
  refine inRange_overNodes fun node _ => ?_
  refine maintains_bind (inRange_draw (sampler.draw_yields g node amount)) fun candidates others => ?_
  refine maintains_bind (inRange_requireList node) fun _ inside => ?_
  exact maintains_forEach fun candidate member => inRange_seedWith inside (others candidate member)

/-! ### Candidates of an iteration -/

/-- Candidates are neighbors, and neighbors are other nodes. -/
theorem inRange_splitList {p : NodeRange} {node : Nat} (member : node ∈ p.nodes) (sampleSize : Nat) :
    StaysInRange n (splitList sampleSize (.own p) node) fun _ => True := by
  refine maintains_bind (R := fun found : Option NeighborList => ∀ list, found = some list →
    node < n ∧ ∀ x ∈ list.entries, Sampler.Other n node x.id) ?_ fun found known => ?_
  · refine maintains_read fun d grounded list found => ⟨?_, grounded.lists node list found⟩
    obtain ⟨inside, -⟩ := Array.getElem?_eq_some_iff.mp found
    exact grounded.size ▸ inside
  cases found with
  | none => exact maintains_bind (maintains_read_any _) fun _ _ => maintains_fail
  | some list =>
    obtain ⟨inside, others⟩ := known list rfl
    have named {ids : List Nat} (part : ids ⊆ list.ids) : ∀ u ∈ ids, Sampler.Other n node u := by
      intro u member
      obtain ⟨x, entry, rfl⟩ := List.mem_map.mp (part member)
      exact others x entry
    refine maintains_bind (R := fun places => places = .ok (node, node))
      (maintains_read fun d grounded => Share.places_own member (grounded.old.size.symm ▸ inside)
        (grounded.new.size.symm ▸ inside)) fun places own => ?_
    rw [own, check_ok_bind]
    refine maintains_bind (inRange_draw ((list.split_yields sampleSize).and
      (list.split_yields_ids sampleSize))) fun parts ⟨split, old, new⟩ => ?_
    refine maintains_update fun d grounded => { grounded with
      size := Array.size_setIfInBounds.trans grounded.size
      lists := ?_
      old := grounded.old.replace (named old)
      new := grounded.new.replace (named new) }
    intro v l found x member
    rw [keepParts, ground] at found
    dsimp only at found
    rw [Array.getElem?_setIfInBounds] at found
    split at found
    · next same =>
      split at found
      · subst same
        obtain rfl := Option.some.inj found
        refine named (List.Subset.refl _) x.id ?_
        rw [← list.ids_check parts.new, ← split]
        exact List.mem_map_of_mem member
      · cases found
    · exact grounded.lists v l found x member

theorem inRange_overMap {take : Descent → NodeMap × Descent} {put : NodeMap → Descent → Descent}
    {m : Action NodeMap Unit} (enters : m.Maintains (NodeMap.Sane n) fun _ => True)
    (taken : ∀ d, Grounded n d.ground → NodeMap.Sane n (take d).1)
    (back : ∀ d map, Grounded n d.ground → NodeMap.Sane n map →
      Grounded n (put map (take d).2).ground) :
    StaysInRange n (overMap take put m) fun _ => True :=
  fun d grounded => ⟨back d _ grounded (enters _ (taken d grounded)).1, fun _ _ => trivial⟩

/-- The candidates of a node that has some. -/
theorem inRange_entries {node : Nat} {map : Descent → NodeMap}
    (sane : ∀ d, Grounded n d.ground → NodeMap.Sane n (map d)) :
    StaysInRange n (read fun d => (map d).entries node) fun r =>
      ∀ xs, r = .ok xs → node < n ∧ ∀ u ∈ xs, Sampler.Other n node u :=
  maintains_read fun d grounded _ found => (sane d grounded).of_entries found

theorem inRange_reverseNode (node : Nat) : StaysInRange n (reverseNode node) fun _ => True := by
  refine maintains_bind (inRange_entries fun _ grounded => grounded.old) fun old others => ?_
  refine maintains_bind (maintains_check others) fun old ⟨inside, _⟩ => ?_
  refine maintains_bind (inRange_overMap (NodeMap.maintains_enter inside old)
    (fun _ grounded => grounded.reverseOld)
    fun d map grounded sane => { grounded with reverseOld := sane }) fun _ _ => ?_
  refine maintains_bind (inRange_entries fun _ grounded => grounded.new) fun new others => ?_
  refine maintains_bind (maintains_check others) fun new ⟨inside, _⟩ => ?_
  exact inRange_overMap (NodeMap.maintains_enter inside new) (fun _ grounded => grounded.reverseNew)
    fun d map grounded sane => { grounded with reverseNew := sane }

theorem inRange_clearReverse : StaysInRange n clearReverse fun _ => True := by
  refine maintains_update fun d grounded => { grounded with reverseOld := ?_, reverseNew := ?_ }
  · rw [← grounded.reverseOld.size]
    exact NodeMap.sane_empty _
  · rw [← grounded.reverseNew.size]
    exact NodeMap.sane_empty _

theorem inRange_reverseMaps (nodeCount batch signal : Nat) :
    StaysInRange n (reverseMaps nodeCount batch signal) fun _ => True := by
  refine maintains_forEach fun node _ => ?_
  refine maintains_bind (Tasks.maintains_poll signal node) fun _ _ => ?_
  refine maintains_bind (inRange_reverseNode node) fun _ _ => ?_
  exact maintains_ite (fun _ => inRange_report _) fun _ => maintains_pure trivial

/-! ### Joins -/

theorem inRange_offerCounted {owner candidate : Nat} (other : Sampler.Other n owner candidate)
    (similarity : Float) :
    StaysInRange n (offerCounted owner candidate similarity) fun _ => True := by
  refine maintains_bind (inRange_offer other similarity) fun changed _ => ?_
  exact maintains_ite (fun _ => inRange_update fun _ => rfl) fun _ => maintains_pure trivial

theorem inRange_joinPair {rule : JoinRule} {a b : Nat} (first : a < n) (second : b < n) :
    StaysInRange n (joinPair rule a b) fun _ => True := by
  refine maintains_ite (fun _ => maintains_pure trivial) fun different => ?_
  refine maintains_bind (inRange_update fun _ => rfl) fun _ _ => ?_
  refine maintains_bind (inRange_update fun _ => rfl) fun _ _ => ?_
  have there : Sampler.Other n a b := ⟨second, Ne.symm different⟩
  have back : Sampler.Other n b a := ⟨first, different⟩
  refine maintains_bind (inRange_compare first there) fun answer _ => ?_
  cases answer with
  | none => exact maintains_pure trivial
  | some similarity =>
    exact maintains_bind (inRange_offerCounted there similarity) fun _ _ =>
      inRange_offerCounted back similarity

theorem inRange_joinRandom (rule : JoinRule) {node : Nat} (inside : node < n) :
    StaysInRange n (joinRandom rule node) fun _ => True := by
  refine maintains_bind (R := (· = n)) (maintains_read fun _ grounded => grounded.size)
    fun count size => ?_
  refine maintains_bind (inRange_draw (Random.below64_yields (count - 1))) fun drawn below => ?_
  subst size
  let other := if node ≤ drawn then drawn + 1 else drawn
  have there : Sampler.Other count node other := Sampler.other_of_lt node below
  have back : Sampler.Other count other node := ⟨inside, Ne.symm there.2⟩
  refine maintains_bind (inRange_update fun _ => rfl) fun _ _ => ?_
  refine maintains_bind (inRange_compare inside there) fun answer _ => ?_
  cases answer with
  | none => exact inRange_update fun _ => rfl
  | some similarity =>
    refine maintains_bind (maintains_discard (inRange_offer there similarity)) fun _ _ => ?_
    refine maintains_bind (R := fun _ => True) ?_ fun heard _ => ?_
    · exact maintains_ite (fun _ => inRange_draw (yields_any _)) fun _ => maintains_pure trivial
    refine maintains_bind (inRange_update fun _ => rfl) fun _ _ => ?_
    exact maintains_ite (fun _ => maintains_discard (inRange_offer back similarity))
      fun _ => maintains_pure trivial

/-- Candidates in both directions are nodes, and so is the one they are candidates of. -/
theorem inRange_combined {result : α → Prop} (forward reverse : Ground → NodeMap)
    (front : ∀ t, Grounded n t → (forward t).Sane n) (back : ∀ t, Grounded n t → (reverse t).Sane n)
    (sampleSize node : Nat) {rest : List Nat → Action Descent α}
    (h : ∀ found, node < n → (∀ u ∈ found, u < n) → StaysInRange n (rest found) result) :
    StaysInRange n (do
      let ahead ← read fun d => (forward d.ground).entries node
      let behind ← read fun d => (reverse d.ground).entries node
      rest (← draw (combine (← check ahead) (← check behind) sampleSize))) result := by
  refine maintains_bind (inRange_entries fun _ grounded => front _ grounded) fun ahead others => ?_
  refine maintains_bind (inRange_entries fun _ grounded => back _ grounded) fun behind others' => ?_
  refine maintains_bind (maintains_check others) fun xs ⟨inside, nodes⟩ => ?_
  refine maintains_bind (maintains_check others') fun ys ⟨_, nodes'⟩ => ?_
  refine maintains_bind (inRange_draw (combine_yields xs ys sampleSize)) fun found part => ?_
  refine h found inside fun u member => ?_
  rcases List.mem_append.mp (part member) with first | second
  · exact (nodes u first).1
  · exact (nodes' u second).1

/-- All candidates of a node are nodes, in whatever direction. -/
theorem inRange_gather (sampleSize node : Nat) :
    StaysInRange n (gather sampleSize node) fun found =>
      node < n ∧ ∀ u ∈ found.1 ++ found.2, u < n := by
  refine inRange_combined Ground.new Ground.reverseNew (fun _ grounded => grounded.new)
    (fun _ grounded => grounded.reverseNew) sampleSize node fun new inside newer => ?_
  refine inRange_combined Ground.old Ground.reverseOld (fun _ grounded => grounded.old)
    (fun _ grounded => grounded.reverseOld) sampleSize node fun old _ older => ?_
  exact maintains_pure ⟨inside, fun u member => (List.mem_append.mp member).elim (newer u) (older u)⟩

theorem inRange_joinNode (rule : JoinRule) (node : Nat) :
    StaysInRange n (joinNode rule node) fun _ => True := by
  refine maintains_bind (inRange_gather rule.sampleSize node) fun found ⟨inside, nodes⟩ => ?_
  refine maintains_bind (maintains_forEach fun pair member => ?_) fun _ _ => ?_
  · obtain ⟨first, second⟩ := mem_candidatePairs member
    exact inRange_joinPair (nodes pair.1 first) (nodes pair.2 second)
  · exact maintains_repeatTimes (inRange_joinRandom rule inside) rule.randomJoins

/-! ### Phases -/

theorem inRange_phase {name : String} {m : Action Descent α}
    (h : StaysInRange n m fun _ => True) : StaysInRange n (phase name m) fun _ => True := by
  refine maintains_bind (inRange_report _) fun _ _ => maintains_bind h fun a known => ?_
  exact maintains_bind (inRange_report _) fun _ _ => maintains_pure known

theorem ignoresSignals_grounded : Tasks.IgnoresSignals fun d : Descent => Grounded n d.ground :=
  fun _ _ grounded => grounded

theorem inRange_overTiles {tiles : List β} {signal : Nat} {task : Nat → β → Action Descent Unit}
    (each : ∀ signal, ∀ b ∈ tiles, StaysInRange n (task signal b) fun _ => True) :
    StaysInRange n (overTiles tiles signal task) fun _ => True := by
  refine maintains_bind (Tasks.maintains_child ignoresSignals_grounded signal) fun below _ => ?_
  refine maintains_bind (maintains_collect fun _ _ =>
    maintains_zoom (yields_any _) fun _ _ grounded => grounded) fun seeds _ => ?_
  refine maintains_discard (Tasks.maintains_run (ignoresSignals_grounded.raise _) fun task' member => ?_)
  obtain ⟨⟨b, seed⟩, paired, rfl⟩ := List.mem_map.mp member
  exact maintains_bind (inRange_reseed seed) fun _ _ => each below b (List.of_mem_zip paired).1

/-- The maps have a slot for every node, so each task puts candidates into the slots of its own nodes. -/
theorem inRange_splitTiles (concurrency minBatch sampleSize signal : Nat) :
    StaysInRange n (splitTiles (NodeRange.tiles concurrency n minBatch) sampleSize signal)
      fun _ => True := by
  intro d grounded
  rw [splitTiles_eq grounded.old.size grounded.new.size]
  refine inRange_overTiles (fun signal share given => ?_) d grounded
  obtain ⟨p, -, rfl⟩ := List.mem_map.mp given
  exact inRange_overNodes fun node member => inRange_splitList member sampleSize

theorem inRange_filterLists (cutoff : Float) (p : NodeRange) :
    StaysInRange n (filterLists cutoff p) fun _ => True := by
  refine maintains_bind (maintains_forEach fun node _ => ?_) fun _ _ => inRange_report _
  refine maintains_bind (inRange_requireList node) fun _ _ => ?_
  refine maintains_update fun d grounded => { grounded with
    size := Array.size_modify.trans grounded.size
    lists := grounded.lists.modify ?_ fun _ _ _ others => others }
  exact fun l others x member => others x (List.mem_of_mem_filter member)

end Descent

namespace Search

open Descent

variable {s : Search}

theorem inRange_iteration (signal : Nat) :
    StaysInRange s.nodeCount (s.iteration signal) fun _ => True := by
  refine maintains_bind (inRange_phase (inRange_splitTiles _ _ _ signal)) fun _ _ => ?_
  refine maintains_bind (inRange_phase ?_) fun _ _ => inRange_phase ?_
  · exact maintains_bind inRange_clearReverse fun _ _ => inRange_reverseMaps _ _ signal
  · refine maintains_bind (inRange_update fun _ => rfl) fun _ _ => ?_
    exact inRange_overTiles fun signal p _ => inRange_overNodes fun node _ => inRange_joinNode _ node

theorem inRange_iterate (signal more : Nat) (rounds : Rounds) :
    StaysInRange s.nodeCount (s.iterate signal more rounds) fun _ => True := by
  induction more generalizing rounds with
  | zero => exact maintains_pure trivial
  | succ more ih =>
    refine maintains_bind (inRange_iteration signal) fun _ _ => ?_
    refine maintains_bind (maintains_read_any _) fun updates _ => ?_
    refine maintains_bind (maintains_read_any _) fun pairs _ => ?_
    refine maintains_bind (inRange_update fun _ => rfl) fun _ _ => ?_
    refine maintains_bind (inRange_note _ _) fun _ _ => ?_
    exact maintains_ite (fun _ => maintains_pure trivial) fun _ => ih _

theorem inRange_cutOff (signal : Nat) : StaysInRange s.nodeCount (s.cutOff signal) fun _ => True := by
  refine maintains_ite (fun _ => inRange_phase ?_) fun _ => maintains_pure trivial
  refine maintains_bind (Tasks.maintains_child ignoresSignals_grounded signal) fun below _ => ?_
  refine maintains_bind (Tasks.maintains_run (ignoresSignals_grounded.raise _) fun task member => ?_)
    fun _ _ => maintains_pure trivial
  obtain ⟨p, -, rfl⟩ := List.mem_map.mp member
  exact inRange_filterLists _ p

theorem inRange_descend (seed : UInt64) (signal : Nat) :
    StaysInRange s.nodeCount (s.descend seed signal) fun _ => True := by
  have anyMaster (master : Random.Stream) : StaysInRange s.nodeCount
      (update fun d => { d with master }) fun _ => True := inRange_update fun _ => rfl
  refine maintains_bind (anyMaster _) fun _ _ => ?_
  refine maintains_bind (inRange_note _ _) fun _ _ => ?_
  refine maintains_bind (inRange_phase (inRange_overTiles fun signal p _ =>
    inRange_seedLists _ _ signal p)) fun _ _ => ?_
  refine maintains_bind (maintains_read_any _) fun found _ => ?_
  refine maintains_bind (inRange_phase (inRange_iterate signal _ _)) fun rounds _ => ?_
  refine maintains_bind (inRange_cutOff signal) fun _ _ => ?_
  refine maintains_bind (inRange_note _ _) fun _ _ => ?_
  refine maintains_bind (maintains_read_any _) fun lists _ => ?_
  exact maintains_pure trivial

/-- Whatever a run comes to, it has compared only different nodes of the graph. -/
theorem grounded_run (s : Search) (entropy : UInt64) (signals : Signals) (signal : Nat) :
    Grounded s.nodeCount (s.run entropy signals signal).2.ground := by
  have first : Grounded s.nodeCount
      (start signals s.nodeCount (s.config.listCapacity s.nodeCount)).ground := by
    refine ⟨Array.size_replicate, ?_, ?_, ?_, ?_, ?_, ?_, rfl⟩
    · intro v l found x member
      obtain rfl := eq_of_getElem?_replicate found
      exact absurd member List.not_mem_nil
    · exact NodeMap.sane_empty _
    · exact NodeMap.sane_empty _
    · exact NodeMap.sane_empty _
    · exact NodeMap.sane_empty _
    · exact fun pair none => absurd none List.not_mem_nil
  have computes : StaysInRange s.nodeCount (s.compute entropy signal) fun _ => True := by
    refine maintains_ite (fun _ => ?_) fun _ => ?_
    · exact maintains_bind (inRange_note _ _) fun _ _ => maintains_pure trivial
    · exact maintains_bind (maintains_check fun _ _ => trivial) fun _ _ => inRange_descend _ signal
  exact (computes _ first).1

end Search

end NeighborGraph
