import Mathlib.Algebra.Order.BigOperators.Group.List
import Mathlib.Algebra.Order.Group.Nat
import NeighborGraph.Proofs.Descent.Draws
import NeighborGraph.Proofs.Descent.Lists
import NeighborGraph.Proofs.Descent.Untouched

/-!
# Local joins leave no pair out

The join of a range compares the new candidates of each of its nodes with one another and with the old
ones.  A candidate may come from both sides, pairs are listed in one order only, and what a pair puts
into a list a later pair, or a random node, may push out again.  None of that loses anything: in the
end each node of a pair is in the list of the other one, or the list is full of better nodes
(`Descent.joinLists_complete`).

The invariant is that every list holds the best of its own neighbors and of the nodes that it was told
of (`Told`).  It lasts for any such nodes, and a pair adds its two nodes to them.  The candidates that a
pair is looked up in do not change while ranges are joined (`Descent.leaves_joinNode_maps`).
-/

namespace NeighborGraph

open NeighborGraph.Action

/-! ### Lists and what they were told -/

namespace NeighborList

variable {l : NeighborList}

/-- What is still in the list counts as offered, whatever else does. -/
theorem Best.again {similarity : Nat → Option Float} {offered told : Nat → Prop}
    (h : Best similarity offered l) (part : ∀ u, told u → offered u) :
    Best similarity (fun u => u ∈ l.ids ∨ told u) l := by
  refine ⟨fun x member => ⟨.inl (List.mem_map_of_mem member), (h.known x member).2⟩, ?_⟩
  rintro u s (inside | told) value number
  · exact .inl inside
  · exact h.kept u s (part u told) value number

/-- The owner of a list shows in nothing but the refusal of itself. -/
theorem add_eq_add {owner owner' candidate : Nat} (other : candidate ≠ owner)
    (other' : candidate ≠ owner') (similarity : Float) :
    l.add owner candidate similarity = l.add owner' candidate similarity := by
  have same : l.refuses owner candidate similarity = l.refuses owner' candidate similarity := by
    rw [refuses, refuses, beq_false_of_ne other, beq_false_of_ne other']
  rw [add, add, same]

end NeighborList

/-- A list in proper order with a place at least, that holds the best of its neighbors and of the nodes
that `v` was told of.  It need not be free of `v`, only of the stranger. -/
structure Holds (f : Nat → Nat → Option Float) (stranger : Nat) (told : Nat → Nat → Prop) (v : Nat)
    (l : NeighborList) : Prop where
  valid : l.Valid stranger
  places : 1 ≤ l.capacity
  best : l.Best (f v) fun u => u ∈ l.ids ∨ told v u

/-- Lists of `n` nodes, none of which is the stranger, and what the nodes were told. -/
structure Told (f : Nat → Nat → Option Float) (n stranger : Nat) (told : Nat → Nat → Prop)
    (t : Standing) : Prop where
  size : t.lists.size = n
  strange : n ≤ stranger
  inside : ∀ v u, told v u → v < n
  lists : Each (Holds f stranger told) t.lists

section Told

variable {f : Nat → Nat → Option Float} {n stranger v : Nat} {told told' : Nat → Nat → Prop}
  {l : NeighborList}

theorem Holds.mono (h : Holds f stranger told v l) (part : ∀ u, told' v u → told v u) :
    Holds f stranger told' v l :=
  ⟨h.valid, h.places, h.best.again fun u now => .inr (part u now)⟩

theorem Holds.check (h : Holds f stranger told v l) (ids : List Nat) :
    Holds f stranger told v (l.check ids) := by
  refine ⟨NeighborList.valid_check h.valid ids, h.places, ?_⟩
  exact (NeighborList.best_check h.best ids).again fun u now => .inr now

/-- A list that is offered a node was told of it. -/
theorem Holds.add (h : Holds f stranger told v l) {candidate : Nat} {similarity : Float}
    (number : similarity.isNaN = false) (value : f v candidate = some similarity)
    (other : candidate ≠ v) (known : candidate ≠ stranger) :
    Holds f stranger (fun w u => (w, u) = (v, candidate) ∨ told w u) v
      (l.add v candidate similarity).2 := by
  rw [NeighborList.add_eq_add other known]
  refine ⟨NeighborList.valid_add h.valid candidate similarity, ?_, ?_⟩
  · rw [NeighborList.capacity_add]
    exact h.places
  · refine (NeighborList.best_add h.best value h.valid number known).again ?_
    rintro u (now | before)
    · exact .inl (Prod.ext_iff.mp now).2
    · exact .inr (.inr before)

theorem holds_tell {similarity : Float} (number : similarity.isNaN = false)
    {lists : Array NeighborList} (h : Each (Holds f stranger told) lists) {owner candidate : Nat}
    (value : f owner candidate = some similarity) (other : candidate ≠ owner)
    (known : candidate ≠ stranger) :
    Each (Holds f stranger fun w u => (w, u) = (owner, candidate) ∨ told w u)
      (tell similarity lists (owner, candidate)) := by
  refine h.modify (fun l holds => holds.add number value other known) fun v l elsewhere holds => ?_
  refine ⟨holds.valid, holds.places, holds.best.again fun u now => .inr ?_⟩
  exact now.resolve_left fun same => elsewhere (Prod.ext_iff.mp same).1

theorem holds_tells {similarity : Float} (number : similarity.isNaN = false)
    {offers : List (Nat × Nat)} {lists : Array NeighborList}
    (h : Each (Holds f stranger told) lists)
    (fair : ∀ o ∈ offers, f o.1 o.2 = some similarity ∧ o.2 ≠ o.1 ∧ o.2 ≠ stranger) :
    Each (Holds f stranger fun w u => (w, u) ∈ offers ∨ told w u)
      (offers.foldl (tell similarity) lists) := by
  induction offers generalizing lists told with
  | nil => exact h.mono fun v l holds => holds.mono fun u now => now.resolve_left List.not_mem_nil
  | cons o rest ih =>
    obtain ⟨value, other, known⟩ := fair o List.mem_cons_self
    refine (ih (holds_tell number h value other known) fun next member =>
      fair next (List.mem_cons_of_mem _ member)).mono fun v l holds => holds.mono ?_
    rintro u (now | before)
    · exact (List.mem_cons.mp now).elim (fun first => .inr (.inl first)) .inl
    · exact .inr (.inr before)

theorem Told.mono {t : Standing} (h : Told f n stranger told t)
    (part : ∀ v u, told' v u → told v u) : Told f n stranger told' t :=
  ⟨h.size, h.strange, fun v u now => h.inside v u (part v u now),
    h.lists.mono fun v _ holds => holds.mono (part v)⟩

/-- The two nodes of an encounter are told of each other, as far as they are offered to each other. -/
theorem Told.met (symmetric : ∀ a b, f a b = f b a) {t : Standing}
    (h : Told f n stranger told t) (e : Encounter) {similarity : Float}
    (value : f e.nodes.1 e.nodes.2 = some similarity) (number : similarity.isNaN = false)
    (different : e.nodes.1 ≠ e.nodes.2) (first : e.nodes.1 < n) (second : e.nodes.2 < n) :
    Told f n stranger (fun w u => (w, u) ∈ e.offers ∨ told w u)
      (t.after e (e.offers.foldl (tell similarity) t.lists)) := by
  have nodes {owner candidate : Nat} (member : (owner, candidate) ∈ e.offers) :
      owner < n ∧ candidate < n := by
    rcases mem_offers member with same | same
    · rw [same] at first second
      exact ⟨first, second⟩
    · rw [same] at first second
      exact ⟨second, first⟩
  refine ⟨(size_tells ..).trans h.size, h.strange, ?_, holds_tells number h.lists ?_⟩
  · rintro w u (now | before)
    · exact (nodes now).1
    · exact h.inside w u before
  · rintro ⟨owner, candidate⟩ member
    refine ⟨value_of_offer symmetric value member, other_of_offer different member, ?_⟩
    have small := (nodes member).2
    have strange := h.strange
    show candidate ≠ stranger
    omega

/-- What nodes were told of is never forgotten. -/
theorem lasting_told (symmetric : ∀ a b, f a b = f b a) (n stranger : Nat)
    (told : Nat → Nat → Prop) : Lasting (.ofFunction f) n (Told f n stranger told) := by
  refine ⟨fun t h => h.size, fun t t' h step => ?_⟩
  cases step with
  | passed => exact ⟨h.size, h.strange, h.inside, h.lists⟩
  | met e similarity answered number different first second =>
    rw [h.size] at first second
    exact (h.met symmetric e (Except.ok.inj answered) number different first second).mono
      fun v u before => .inr before
  | picked node ids =>
    refine ⟨Array.size_modify.trans h.size, h.strange, h.inside, h.lists.modify ?_ ?_⟩
    · exact fun l holds => holds.check ids
    · exact fun v l _ holds => holds

end Told

/-- The list of `owner` holds the candidate, or it is full and its last neighbor is a better one. -/
def Settles (lists : Array NeighborList) (owner candidate : Nat) (similarity : Float) : Prop :=
  ∃ l, lists[owner]? = some l
    ∧ (candidate ∈ l.ids
      ∨ (l.entries.length = l.capacity
        ∧ ∃ worst, l.entries.getLast? = some worst
          ∧ (similarity < worst.similarity
            ∨ ((worst.similarity == similarity) = true ∧ worst.id < candidate))))

/-- A list that was told of a node holds it or better ones. -/
theorem Told.settles {f : Nat → Nat → Option Float} {n stranger : Nat} {told : Nat → Nat → Prop}
    {t : Standing} (h : Told f n stranger told t) {v u : Nat} (known : told v u) {s : Float}
    (value : f v u = some s) (number : s.isNaN = false) : Settles t.lists v u s := by
  obtain ⟨l, found⟩ := exists_entry h.size (h.inside v u known)
  have holds := h.lists v l found
  refine ⟨l, found, ?_⟩
  rcases holds.best.kept u s (.inr known) value number with inside | ⟨full, better⟩
  · exact .inl inside
  · have places := holds.places
    have some : l.entries ≠ [] := List.ne_nil_of_length_pos (by omega)
    have last : l.entries.getLast some ∈ l.entries := List.getLast_mem some
    refine .inr ⟨full, l.entries.getLast some, List.getLast?_eq_getLast_of_ne_nil some, ?_⟩
    exact (Neighbor.precedes_iff_better (x := l.entries.getLast some)
      (y := { id := u, similarity := s }) (holds.valid.numbers _ last) number).mp (better _ last)

namespace Descent

/-! ### Candidates -/

/-- The candidates of all nodes. -/
structure Maps where
  old : NodeMap
  new : NodeMap
  reverseOld : NodeMap
  reverseNew : NodeMap

/-- The candidates that are joined. -/
def maps (d : Descent) : Maps where
  old := d.old
  new := d.new
  reverseOld := d.reverseOld
  reverseNew := d.reverseNew

/-- A candidate that is taken for certain: a neighbor, or one of not too many reverse ones. -/
def Certain (forward reverse : NodeMap) (most v u : Nat) : Prop :=
  (∃ xs, forward[v]? = some xs ∧ u ∈ xs) ∨ ∃ xs, reverse[v]? = some xs ∧ xs.size ≤ most ∧ u ∈ xs

/-- A new candidate that is joined for certain. -/
def Maps.New (m : Maps) (most v u : Nat) : Prop := Certain m.new m.reverseNew most v u

/-- An old candidate that is joined for certain. -/
def Maps.Old (m : Maps) (most v u : Nat) : Prop := Certain m.old m.reverseOld most v u

theorem apart_maps : Apart maps := by
  refine ⟨⟨?_, ?_, ?_, ?_, ?_⟩, ?_, ?_, ?_, ?_⟩
  all_goals intros; rfl

theorem leaves_joinPair_maps (rule : JoinRule) (a b : Nat) : Leaves maps (joinPair rule a b) := by
  have counted (owner candidate : Nat) (similarity : Float) :
      Leaves maps (offerCounted owner candidate similarity) :=
    leaves_offerCounted apart_maps.lists (fun _ _ => rfl) owner candidate similarity
  refine leaves_ite (leaves_pure ()) ?_
  refine leaves_bind (leaves_update fun _ => rfl) fun _ => ?_
  refine leaves_bind (leaves_remember apart_maps _) fun _ => ?_
  refine leaves_bind (leaves_compare apart_maps _ _ _) fun answer => ?_
  cases answer with
  | none => exact leaves_pure ()
  | some similarity => exact leaves_bind (counted a b similarity) fun _ => counted b a similarity

/-- Joins take candidates from the maps and put none into them. -/
theorem leaves_joinNode_maps (rule : JoinRule) (node : Nat) : Leaves maps (joinNode rule node) := by
  refine leaves_bind (leaves_gather apart_maps.toAside _ node) fun found => ?_
  refine leaves_bind (leaves_forEach fun pair _ => leaves_joinPair_maps rule pair.1 pair.2) fun _ => ?_
  exact fun k => ensures_repeatTimes (leaves_joinRandom apart_maps rule node k) rule.randomJoins

/-- Neighbors are all taken, and reverse ones if there are not too many. -/
theorem combine_full (forward reverse : List Nat) (sampleSize : Nat) :
    (combine forward reverse sampleSize).Yields fun xs =>
      forward ⊆ xs ∧ (reverse.length ≤ sampleSize → reverse ⊆ xs) := by
  have picks : (pickReverse sampleSize reverse).Yields fun picked =>
      reverse.length ≤ sampleSize → reverse ⊆ picked := by
    rw [pickReverse]
    refine ensures_ite (fun _ => yields_pure fun _ => List.Subset.refl _) fun many => ?_
    exact (yields_any _).mono (fun _ start => start) fun _ _ _ few => absurd few many
  rw [combine_eq]
  refine yields_bind picks fun picked full => yields_pure ⟨fun u ahead => ?_, fun few u behind => ?_⟩
  · exact List.mem_eraseDups.mpr (List.mem_append_left _ ahead)
  · exact List.mem_eraseDups.mpr (List.mem_append_right _ (full few behind))

theorem mem_of_entries {map : NodeMap} {node u : Nat} {xs : List Nat} {ys : Array Nat}
    (read : map.entries node = .ok xs) (entry : map[node]? = some ys) (member : u ∈ ys) :
    u ∈ xs ∧ xs.length = ys.size := by
  rw [NodeMap.entries, entry] at read
  obtain rfl := Except.ok.inj read
  exact ⟨Array.mem_toList_iff.mpr member, Array.length_toList⟩

/-- Candidates in both directions, as they are found in the maps. -/
theorem ensures_combined {α : Type} {m : Maps} {after : α → Descent → Prop}
    (forward reverse : Maps → NodeMap) (sampleSize node : Nat) {rest : List Nat → Action Descent α}
    (h : ∀ found, (∀ u, Certain (forward m) (reverse m) sampleSize node u → u ∈ found) →
      (rest found).Ensures (fun d => d.maps = m) after) :
    (do
      let ahead ← read fun d => (forward d.maps).entries node
      let behind ← read fun d => (reverse d.maps).entries node
      rest (← draw (combine (← check ahead) (← check behind) sampleSize)) :
        Action Descent α).Ensures (fun d => d.maps = m) after := by
  have looks (pick : Maps → NodeMap) : (read fun d : Descent => (pick d.maps).entries node).Ensures
      (fun d => d.maps = m) fun r d => d.maps = m ∧ r = (pick m).entries node :=
    ensures_read fun d same => ⟨same, congrArg (fun m => (pick m).entries node) same⟩
  refine ensures_bind (looks forward) fun r => ensures_of_fact fun ahead => ?_
  refine ensures_bind (looks reverse) fun r' => ensures_of_fact fun behind => ?_
  refine ensures_bind (R := fun xs d => d.maps = m ∧ r = .ok xs)
    (ensures_check fun _ ok _ same => ⟨same, ok⟩) fun xs => ensures_of_fact fun front => ?_
  refine ensures_bind (R := fun ys d => d.maps = m ∧ r' = .ok ys)
    (ensures_check fun _ ok _ same => ⟨same, ok⟩) fun ys => ensures_of_fact fun back => ?_
  refine ensures_bind ((leaves_draw apart_maps.toAside _ m).and_yields
    (yields_draw (combine_full xs ys sampleSize))) fun found => ensures_of_fact fun ⟨all, few⟩ => ?_
  refine h found fun u candidate => ?_
  rcases candidate with ⟨entry, there, member⟩ | ⟨entry, there, short, member⟩
  · exact all (mem_of_entries (ahead.symm.trans front) there member).1
  · obtain ⟨inside, length⟩ := mem_of_entries (behind.symm.trans back) there member
    exact few (length ▸ short) inside

/-- Candidates that are joined for certain are found. -/
theorem ensures_gather (m : Maps) (sampleSize node : Nat) :
    (gather sampleSize node).Ensures (fun d => d.maps = m) fun found _ => ∀ u,
      (m.New sampleSize node u → u ∈ found.1) ∧ (m.Old sampleSize node u → u ∈ found.2) := by
  refine ensures_combined Maps.new Maps.reverseNew sampleSize node fun new newer => ?_
  refine ensures_combined Maps.old Maps.reverseOld sampleSize node fun old older => ?_
  exact ensures_pure fun _ _ u => ⟨newer u, older u⟩

/-- Two different candidates, one of them new, are a pair in one order or the other. -/
theorem candidatePairs_full {new old : List Nat} {a b : Nat} (first : a ∈ new)
    (second : b ∈ new ∨ b ∈ old) (different : a ≠ b) :
    (a, b) ∈ candidatePairs new old ∨ (b, a) ∈ candidatePairs new old := by
  induction new with
  | nil => exact absurd first List.not_mem_nil
  | cons c rest ih =>
    have here {u : Nat} (member : u ∈ rest ∨ u ∈ old) : (c, u) ∈ candidatePairs (c :: rest) old := by
      rw [candidatePairs]
      refine List.mem_append_left _ ?_
      rcases member with newer | older
      · exact List.mem_append_left _ (List.mem_map_of_mem newer)
      · exact List.mem_append_right _ (List.mem_map_of_mem older)
    have later {pair : Nat × Nat} (member : pair ∈ candidatePairs rest old) :
        pair ∈ candidatePairs (c :: rest) old := by
      rw [candidatePairs]
      exact List.mem_append_right _ member
    rcases List.mem_cons.mp first with rfl | behind
    · refine .inl (here (second.imp_left fun member => ?_))
      exact (List.mem_cons.mp member).resolve_left different.symm
    · rcases second with newer | older
      · rcases List.mem_cons.mp newer with rfl | behind'
        · exact .inr (here (.inl behind))
        · exact (ih behind (.inl behind')).imp later later
      · exact (ih behind (.inr older)).imp later later

/-! ### Joins -/

section Join

variable {rule : JoinRule} {f : Nat → Nat → Option Float} {n stranger : Nat}
  {told : Nat → Nat → Prop}

/-- What is told once two nodes are told of each other, too. -/
def Both (a b : Nat) (told : Nat → Nat → Prop) (v u : Nat) : Prop :=
  (v = a ∧ u = b) ∨ (v = b ∧ u = a) ∨ told v u

variable (function : rule.comparison = .ofFunction f) (symmetric : ∀ a b, f a b = f b a)
include function symmetric

theorem lasting_joined (told : Nat → Nat → Prop) :
    Lasting rule.comparison n (Told f n stranger told) := by
  rw [function]
  exact lasting_told symmetric n stranger told

/-- Two nodes with a similarity are told of each other, because both of them have a list. -/
theorem tells_joinPair {a b : Nat} {s : Float} (value : f a b = some s) (number : s.isNaN = false)
    (different : a ≠ b) :
    (joinPair rule a b).Ensures (fun d => Told f n stranger told d.standing)
      fun _ d => Told f n stranger (Both a b told) d.standing := by
  rw [joinPair, if_neg different]
  refine ensures_of_standing fun t known => ?_
  refine ensures_bind (keeps_update (P := (· = t)) fun _ => rfl) fun _ => ?_
  refine ensures_bind (ensures_remember (.joined a b) t) fun _ => ?_
  refine ensures_bind (ensures_compare rule.comparison a b _) fun answer => ?_
  refine ensures_of_fact fun ⟨raw, answered, filtered⟩ => ?_
  rw [function] at answered
  obtain rfl : some s = raw := value.symm.trans (Except.ok.inj answered)
  rw [Option.filter_some, number] at filtered
  subst filtered
  refine ensures_bind (ensures_offerCounted a b s _) fun _ => ensures_of_fact fun first => ?_
  refine (ensures_offerCounted b a s _).mono (fun _ stands => stands) fun _ d ⟨stands, second⟩ => ?_
  have size : (tell s t.lists (a, b)).size = t.lists.size := Array.size_modify
  rw [stands]
  refine (known.met symmetric (.joined a b) value number different (known.size ▸ first)
    (known.size ▸ size ▸ second)).mono ?_
  rintro v u (⟨rfl, rfl⟩ | ⟨rfl, rfl⟩ | before)
  · exact .inl List.mem_cons_self
  · exact .inl (List.mem_cons_of_mem _ List.mem_cons_self)
  · exact .inr before

/-- All pairs of candidates that are joined for certain are told of each other. -/
theorem tells_joinNode {m : Maps} {node a b : Nat} {s : Float}
    (first : m.New rule.sampleSize node a)
    (second : m.New rule.sampleSize node b ∨ m.Old rule.sampleSize node b)
    (different : a ≠ b) (value : f a b = some s) (number : s.isNaN = false) :
    (joinNode rule node).Ensures (fun d => d.maps = m ∧ Told f n stranger told d.standing)
      fun _ d => Told f n stranger (Both a b told) d.standing := by
  have gathers := ((keeps_gather (P := Told f n stranger told) rule.sampleSize node).and
    (ensures_gather m rule.sampleSize node)).mono (fun d start => And.symm start)
    fun _ _ known => known
  refine ensures_bind gathers fun found => ensures_of_fact fun certain => ?_
  have pairs := candidatePairs_full ((certain a).1 first)
    (second.imp (certain b).1 (certain b).2) different
  refine ensures_bind (R := fun _ d => Told f n stranger (Both a b told) d.standing) ?_ fun _ =>
    ensures_repeatTimes (keeps_joinRandom (lasting_joined function symmetric _) node) _
  have each (told : Nat → Nat → Prop) (pair : Nat × Nat) :
      Keeps (Told f n stranger told) (joinPair rule pair.1 pair.2) :=
    keeps_joinPair (lasting_joined function symmetric told) pair.1 pair.2
  rcases pairs with listed | listed
  · exact ensures_forEach_mem listed (fun pair _ => each told pair)
      (tells_joinPair function symmetric value number different) fun pair _ => each _ pair
  · refine ensures_forEach_mem listed (fun pair _ => each told pair) ?_ fun pair _ => each _ pair
    refine (tells_joinPair function symmetric (symmetric b a ▸ value) number different.symm).mono
      (fun _ known => known) fun _ d known => known.mono ?_
    rintro v u (there | back | before)
    · exact .inr (.inl there)
    · exact .inl back
    · exact .inr (.inr before)

/-- What the join of one node tells, the join of a range that it lies in tells. -/
theorem tells_joinLists {m : Maps} {p : NodeRange} {node a b : Nat} {s : Float} (signal : Nat)
    (member : node ∈ p.nodes) (first : m.New rule.sampleSize node a)
    (second : m.New rule.sampleSize node b ∨ m.Old rule.sampleSize node b)
    (different : a ≠ b) (value : f a b = some s) (number : s.isNaN = false) :
    (joinLists rule signal p).Ensures (fun d => d.maps = m ∧ Told f n stranger told d.standing)
      fun _ d => Told f n stranger (Both a b told) d.standing := by
  have each (told : Nat → Nat → Prop) (v : Nat) :
      Keeps (Told f n stranger told) (joinNode rule v) :=
    keeps_joinNode (lasting_joined function symmetric told) v
  refine ensures_bind (R := fun _ d => Told f n stranger (Both a b told) d.standing)
    (ensures_forEach_mem member ?_ ?_ ?_) fun _ => keeps_report _
  · intro v _
    refine ensures_bind (Tasks.ensures_poll signal _) fun _ => ?_
    exact (leaves_joinNode_maps rule v m).and (each told v)
  · refine ensures_bind (Tasks.ensures_poll signal _) fun _ => ?_
    exact tells_joinNode function symmetric first second different value number
  · exact fun v _ => ensures_bind (Tasks.ensures_poll signal _) fun _ => each _ v

end Join

/-! ### The result -/

/-- A list in proper order with a place at least, whose neighbors have their similarity to `v`. -/
structure WellFormed (f : Nat → Nat → Option Float) (v : Nat) (l : NeighborList) : Prop where
  places : 1 ≤ l.capacity
  bounded : l.entries.length ≤ l.capacity
  numbers : ∀ x ∈ l.entries, x.similarity.isNaN = false
  ordered : l.entries.Pairwise fun x y => x.precedes y = true
  distinct : l.ids.Nodup
  known : ∀ x ∈ l.entries, f v x.id = some x.similarity

/-- Some number is none of a list of numbers, and not below another one. -/
theorem exists_stranger (n : Nat) (ids : List Nat) : ∃ stranger, n ≤ stranger ∧ stranger ∉ ids := by
  refine ⟨n + ids.sum + 1, by omega, fun member => ?_⟩
  have least := List.le_sum_of_mem member
  omega

/-- Well-formed lists that were told nothing yet. -/
theorem told_nothing {f : Nat → Nat → Option Float} {d : Descent}
    (wellFormed : Each (WellFormed f) d.lists) :
    ∃ stranger, Told f d.lists.size stranger (fun _ _ => False) d.standing := by
  obtain ⟨stranger, strange, new⟩ := exists_stranger d.lists.size
    (d.lists.toList.flatMap NeighborList.ids)
  refine ⟨stranger, rfl, strange, fun _ _ none => none.elim, fun v l found => ?_⟩
  have well := wellFormed v l found
  have member : l ∈ d.lists.toList := Array.mem_toList_iff.mpr (Array.mem_of_getElem? found)
  refine ⟨⟨well.bounded, well.numbers, well.ordered, well.distinct, fun inside => ?_⟩,
    well.places, ?_⟩
  · exact new (List.mem_flatMap.mpr ⟨l, member, inside⟩)
  · refine ⟨fun x member => ⟨.inl (List.mem_map_of_mem member), well.known x member⟩, ?_⟩
    exact fun u _ known _ _ => .inl (known.resolve_right id)

/-- A join of a range that succeeds, from well-formed lists and for a similarity that depends on the two
nodes alone, leaves out no pair of candidates.  Take a node of the range, a new candidate of it and
another candidate, new or old, both of them neighbors or among no more reverse candidates than are
taken.  If their similarity is a number, then in the end the list of either holds the other one, or it
is full and its last neighbor comes before the other one. -/
theorem joinLists_complete {rule : JoinRule} {f : Nat → Nat → Option Float}
    (function : rule.comparison = .ofFunction f) (symmetric : ∀ a b, f a b = f b a)
    {d d' : Descent} (wellFormed : Each (WellFormed f) d.lists) {signal : Nat} {p : NodeRange}
    (run : joinLists rule signal p d = (.ok (), d')) {node a b : Nat} (member : node ∈ p.nodes)
    (first : d.maps.New rule.sampleSize node a)
    (second : d.maps.New rule.sampleSize node b ∨ d.maps.Old rule.sampleSize node b)
    (different : a ≠ b) {s : Float} (value : f a b = some s) (number : s.isNaN = false) :
    Settles d'.lists a b s ∧ Settles d'.lists b a s := by
  obtain ⟨stranger, nothing⟩ := told_nothing wellFormed
  have told : Told f d.lists.size stranger (Both a b fun _ _ => False) d'.standing :=
    tells_joinLists function symmetric signal member first second different value number
      d () d' ⟨rfl, nothing⟩ run
  exact ⟨told.settles (.inl ⟨rfl, rfl⟩) value number,
    told.settles (.inr (.inl ⟨rfl, rfl⟩)) (symmetric b a ▸ value) number⟩

/-- Node 0 of three knows node 1 for long and node 2 since now; nobody has a neighbor yet. -/
def acquaintances : Descent :=
  { Descent.start {} 3 2 with
    old := #[#[1], #[], #[]]
    new := #[#[2], #[], #[]]
    stream := Random.Stream.ofSeed 1 }

/-- All nodes are equally similar. -/
def evenRule : JoinRule where
  comparison := .ofFunction fun _ _ => some 0.5
  sampleSize := 2
  randomJoins := 1
  perturbationRate := 0.5

theorem joinLists_complete_of_acquaintances :
    ∃ d', joinLists evenRule 0 ⟨0, 1⟩ acquaintances = (.ok (), d')
      ∧ Settles d'.lists 2 1 0.5 ∧ Settles d'.lists 1 2 0.5 := by
  have ok : (joinLists evenRule 0 ⟨0, 1⟩ acquaintances).1.isOk = true := by decide +kernel
  obtain ⟨d', run⟩ : ∃ d', joinLists evenRule 0 ⟨0, 1⟩ acquaintances = (.ok (), d') := by
    cases result : joinLists evenRule 0 ⟨0, 1⟩ acquaintances with
    | mk r d' =>
      rw [result] at ok
      cases r with
      | ok a => exact ⟨d', rfl⟩
      | error fault => cases ok
  have wellFormed : Each (WellFormed fun _ _ => some 0.5) acquaintances.lists := by
    intro v l found
    obtain rfl := eq_of_getElem?_replicate (n := 3) found
    have none : ∀ x : Neighbor, x ∈ ([] : List Neighbor) → False := fun x => List.not_mem_nil
    exact ⟨by decide, by decide, fun x member => (none x member).elim, .nil, .nil,
      fun x member => (none x member).elim⟩
  have new : acquaintances.maps.New 2 0 2 := .inl ⟨#[2], rfl, Array.mem_singleton.mpr rfl⟩
  have old : acquaintances.maps.Old 2 0 1 := .inl ⟨#[1], rfl, Array.mem_singleton.mpr rfl⟩
  exact ⟨d', run, joinLists_complete rfl (fun _ _ => rfl) wellFormed run List.mem_cons_self new
    (.inr old) (by decide) rfl (by decide)⟩

end Descent

end NeighborGraph
