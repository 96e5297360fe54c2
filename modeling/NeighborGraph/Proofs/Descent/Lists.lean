import NeighborGraph.Outcome
import NeighborGraph.Proofs.Descent.Run
import NeighborGraph.Proofs.NeighborList.Best

/-!
# The lists of a run

Two properties of standings last, and with that they hold of what a run ends with:

* `Sound` — for any comparison: there is a list for every node, it is a valid one, and every neighbor
  in it is a node whose similarity the comparison gave for the two;
* `Complete` — for a comparison that is a symmetric function of the two nodes: the list of a node
  holds the best of all nodes that were ever offered to it.
-/

namespace NeighborGraph

/-! ### All lists at once -/

/-- Every list has a property, which may depend on its node. -/
def Each (R : Nat → NeighborList → Prop) (lists : Array NeighborList) : Prop :=
  ∀ v l, lists[v]? = some l → R v l

/-- What a change of one list does to all lists. -/
theorem Each.modify {R R' : Nat → NeighborList → Prop} {lists : Array NeighborList}
    (h : Each R lists) {node : Nat} {f : NeighborList → NeighborList}
    (there : ∀ l, R node l → R' node (f l)) (elsewhere : ∀ v l, v ≠ node → R v l → R' v l) :
    Each R' (lists.modify node f) := by
  intro v l found
  rw [Array.getElem?_modify] at found
  by_cases same : node = v
  · rw [if_pos same, Option.map_eq_some_iff] at found
    obtain ⟨before, found, rfl⟩ := found
    subst same
    exact there before (h node before found)
  · rw [if_neg same] at found
    exact elsewhere v l (Ne.symm same) (h v l found)

theorem Each.mono {R R' : Nat → NeighborList → Prop} {lists : Array NeighborList}
    (h : Each R lists) (weaker : ∀ v l, R v l → R' v l) : Each R' lists :=
  fun v l found => weaker v l (h v l found)

theorem eq_of_getElem?_replicate {α : Type} {n i : Nat} {a b : α}
    (h : (Array.replicate n a)[i]? = some b) : b = a := by
  rw [Array.getElem?_replicate] at h
  split at h
  · exact (Option.some.inj h).symm
  · cases h

theorem exists_entry {α : Type} {xs : Array α} {n v : Nat} (size : xs.size = n) (inside : v < n) :
    ∃ x, xs[v]? = some x := by
  subst size
  exact ⟨xs[v], Array.getElem?_eq_getElem inside⟩

theorem size_tells (similarity : Float) (offers : List (Nat × Nat)) (lists : Array NeighborList) :
    (offers.foldl (tell similarity) lists).size = lists.size := by
  induction offers generalizing lists with
  | nil => rfl
  | cons offer rest ih =>
    rw [List.foldl_cons, ih]
    exact Array.size_modify

/-- The two nodes of an encounter, in one order or the other. -/
theorem mem_offers {e : Encounter} {owner candidate : Nat} (h : (owner, candidate) ∈ e.offers) :
    e.nodes = (owner, candidate) ∨ e.nodes = (candidate, owner) := by
  rw [Encounter.offers] at h
  split at h
  · rcases List.mem_pair.mp h with same | swapped
    · exact .inl same.symm
    · refine .inr ?_
      rw [← Prod.swap_swap e.nodes, ← swapped]
      rfl
  · exact .inl (List.mem_singleton.mp h).symm

/-! ### Sound lists -/

/-- The comparison gives this similarity for two nodes, in one order or the other. -/
def Scores (comparison : Comparison) (a b : Nat) (similarity : Float) : Prop :=
  ∃ call, (comparison call a b).outcome = .ok (some similarity)
    ∨ (comparison call b a).outcome = .ok (some similarity)

/-- A list that the node `v`, one of `n`, may have in a run. -/
structure SoundList (comparison : Comparison) (n capacity v : Nat) (l : NeighborList) : Prop where
  capacity : l.capacity = capacity
  valid : l.Valid v
  known : ∀ x ∈ l.entries, x.id < n ∧ Scores comparison v x.id x.similarity

variable {comparison : Comparison} {n capacity v : Nat} {l : NeighborList}

theorem SoundList.add (h : SoundList comparison n capacity v l) {candidate : Nat}
    {similarity : Float} (inside : candidate < n) (scores : Scores comparison v candidate similarity) :
    SoundList comparison n capacity v (l.add v candidate similarity).2 := by
  refine ⟨?_, NeighborList.valid_add h.valid candidate similarity, ?_⟩
  · rw [NeighborList.capacity_add]
    exact h.capacity
  · intro x member
    rcases NeighborList.mem_add member with rfl | before
    · exact ⟨inside, scores⟩
    · exact h.known x before

theorem SoundList.check (h : SoundList comparison n capacity v l) (picked : List Nat) :
    SoundList comparison n capacity v (l.check picked) := by
  refine ⟨h.capacity, NeighborList.valid_check h.valid picked, ?_⟩
  intro y member
  obtain ⟨x, inside, rfl⟩ := List.mem_map.mp member
  show (NeighborList.marked picked x).id < n ∧ Scores comparison v
    (NeighborList.marked picked x).id (NeighborList.marked picked x).similarity
  rw [NeighborList.marked_id, NeighborList.marked_similarity]
  exact h.known x inside

/-- There is a sound list for each of `n` nodes, and every comparison is remembered. -/
structure Sound (comparison : Comparison) (n capacity : Nat) (t : Standing) : Prop where
  size : t.lists.size = n
  recorded : t.encounters.length = t.calls
  lists : Each (SoundList comparison n capacity) t.lists

theorem sound_tells {similarity : Float} {offers : List (Nat × Nat)} {lists : Array NeighborList}
    (h : Each (SoundList comparison n capacity) lists)
    (fair : ∀ offer ∈ offers, offer.2 < n ∧ Scores comparison offer.1 offer.2 similarity) :
    Each (SoundList comparison n capacity) (offers.foldl (tell similarity) lists) := by
  induction offers generalizing lists with
  | nil => exact h
  | cons offer rest ih =>
    obtain ⟨inside, scores⟩ := fair offer List.mem_cons_self
    refine ih (h.modify ?_ ?_) fun next member => fair next (List.mem_cons_of_mem _ member)
    · exact fun l sound => sound.add inside scores
    · exact fun v l _ sound => sound

/-- Sound lists stay sound. -/
theorem lasting_sound (comparison : Comparison) (n capacity : Nat) :
    Lasting comparison n (Sound comparison n capacity) := by
  refine ⟨fun t sound => sound.size, ?_⟩
  intro t t' sound step
  cases step with
  | passed => exact ⟨sound.size, congrArg (· + 1) sound.recorded, sound.lists⟩
  | met e similarity answered number different first second =>
    refine ⟨(size_tells ..).trans sound.size, congrArg (· + 1) sound.recorded, ?_⟩
    refine sound_tells sound.lists ?_
    intro ⟨owner, candidate⟩ member
    rw [sound.size] at first second
    rcases mem_offers member with nodes | nodes
    · rw [nodes] at answered second
      exact ⟨second, t.calls, .inl answered⟩
    · rw [nodes] at answered first
      exact ⟨first, t.calls, .inr answered⟩
  | picked node ids =>
    refine ⟨Array.size_modify.trans sound.size, sound.recorded, sound.lists.modify ?_ ?_⟩
    · exact fun l sound => sound.check ids
    · exact fun v l _ sound => sound

theorem sound_start (comparison : Comparison) (signals : Signals) (n capacity : Nat) :
    Sound comparison n capacity (Descent.start signals n capacity).standing := by
  refine ⟨Array.size_replicate, rfl, ?_⟩
  intro v l found
  obtain rfl := eq_of_getElem?_replicate found
  exact ⟨rfl, NeighborList.valid_empty capacity v, fun x member => absurd member List.not_mem_nil⟩

/-! ### Complete lists -/

/-- The nodes that were offered to `v`. -/
def offered (v : Nat) (encounters : List Encounter) : List Nat :=
  (encounters.flatMap Encounter.offers).filterMap fun offer =>
    if offer.1 = v then some offer.2 else none

theorem mem_offered_cons {e : Encounter} {encounters : List Encounter} {u : Nat} :
    u ∈ offered v (e :: encounters) ↔ (v, u) ∈ e.offers ∨ u ∈ offered v encounters := by
  rw [offered, List.flatMap_cons, List.filterMap_append, List.mem_append, List.mem_filterMap]
  refine or_congr ?_ Iff.rfl
  constructor
  · rintro ⟨⟨owner, candidate⟩, member, found⟩
    split at found
    · next same =>
      obtain rfl := same
      obtain rfl := Option.some.inj found
      exact member
    · cases found
  · intro member
    exact ⟨(v, u), member, if_pos rfl⟩

/-- A list that holds the best of the candidates of `v`. -/
structure BestList (f : Nat → Nat → Option Float) (candidates : Nat → Nat → Prop) (v : Nat)
    (l : NeighborList) : Prop where
  valid : l.Valid v
  best : l.Best (f v) (candidates v)

/-- One offer. -/
theorem best_tell {f : Nat → Nat → Option Float} {candidates : Nat → Nat → Prop}
    {similarity : Float} (number : similarity.isNaN = false) {lists : Array NeighborList}
    (h : Each (BestList f candidates) lists) {owner candidate : Nat} (other : candidate ≠ owner)
    (value : f owner candidate = some similarity) :
    Each (BestList f fun v u => (v, u) = (owner, candidate) ∨ candidates v u)
      (tell similarity lists (owner, candidate)) := by
  refine h.modify ?_ ?_
  · intro l known
    refine ⟨NeighborList.valid_add known.valid candidate similarity, ?_⟩
    refine (NeighborList.best_add known.best value known.valid number other).widen ?_ ?_
    · rintro u (rfl | before)
      · exact .inl rfl
      · exact .inr before
    · rintro u s (same | before) _ _
      · exact .inl (Prod.ext_iff.mp same).2
      · exact .inr before
  · intro v l elsewhere known
    refine ⟨known.valid, known.best.widen (fun u before => .inr before) ?_⟩
    rintro u s (same | before) _ _
    · exact absurd (Prod.ext_iff.mp same).1 elsewhere
    · exact before

theorem best_tells {f : Nat → Nat → Option Float} {candidates : Nat → Nat → Prop}
    {similarity : Float} (number : similarity.isNaN = false) {offers : List (Nat × Nat)}
    {lists : Array NeighborList} (h : Each (BestList f candidates) lists)
    (fair : ∀ offer ∈ offers, offer.2 ≠ offer.1 ∧ f offer.1 offer.2 = some similarity) :
    Each (BestList f fun v u => (v, u) ∈ offers ∨ candidates v u)
      (offers.foldl (tell similarity) lists) := by
  -- the candidates grow with every offer, so they are generalized, too
  induction offers generalizing lists candidates with
  | nil =>
    refine h.mono fun v l known => ⟨known.valid, known.best.widen (fun u before => .inr before) ?_⟩
    rintro u s (none | before) _ _
    · exact absurd none List.not_mem_nil
    · exact before
  | cons offer rest ih =>
    obtain ⟨other, value⟩ := fair offer List.mem_cons_self
    have told := ih (best_tell number h other value) fun next member =>
      fair next (List.mem_cons_of_mem _ member)
    refine told.mono fun v l known => ⟨known.valid, known.best.widen ?_ ?_⟩
    · rintro u (later | now | before)
      · exact .inl (List.mem_cons_of_mem _ later)
      · exact .inl (now ▸ List.mem_cons_self)
      · exact .inr before
    · rintro u s (now | before) _ _
      · rcases List.mem_cons.mp now with now | later
        · exact .inr (.inl now)
        · exact .inl later
      · exact .inr (.inr before)

/-- The list of every node holds the best of all nodes that were offered to it. -/
structure Complete (f : Nat → Nat → Option Float) (n capacity : Nat) (t : Standing) : Prop where
  sound : Sound (.ofFunction f) n capacity t
  best : Each (fun v l => l.Best (f v) (· ∈ offered v t.encounters)) t.lists

/-- Both nodes of an encounter have the same similarity to each other. -/
theorem value_of_offer {f : Nat → Nat → Option Float} (symmetric : ∀ a b, f a b = f b a)
    {e : Encounter} {answer : Option Float} (answered : f e.nodes.1 e.nodes.2 = answer)
    {owner candidate : Nat} (member : (owner, candidate) ∈ e.offers) :
    f owner candidate = answer := by
  rcases mem_offers member with nodes | nodes
  · rw [nodes] at answered
    exact answered
  · rw [nodes] at answered
    rw [symmetric]
    exact answered

theorem other_of_offer {e : Encounter} (different : e.nodes.1 ≠ e.nodes.2) {owner candidate : Nat}
    (member : (owner, candidate) ∈ e.offers) : candidate ≠ owner := by
  rcases mem_offers member with nodes | nodes
  · rw [nodes] at different
    exact different.symm
  · rw [nodes] at different
    exact different

/-- Complete lists stay complete. -/
theorem lasting_complete {f : Nat → Nat → Option Float} (symmetric : ∀ a b, f a b = f b a)
    (n capacity : Nat) : Lasting (.ofFunction f) n (Complete f n capacity) := by
  refine ⟨fun t complete => complete.sound.size, ?_⟩
  intro t t' complete step
  refine ⟨(lasting_sound _ n capacity).step t t' complete.sound step, ?_⟩
  cases step with
  | passed e answer answered nothing =>
    have answered : f e.nodes.1 e.nodes.2 = answer := Except.ok.inj answered
    intro v l found
    refine (complete.best v l found).widen (fun u before => mem_offered_cons.mpr (.inr before)) ?_
    intro u s now value number
    rcases mem_offered_cons.mp now with met | before
    · rw [← value_of_offer symmetric answered met, value, Option.filter_some, number] at nothing
      cases nothing
    · exact before
  | met e similarity answered number different first second =>
    have answered : f e.nodes.1 e.nodes.2 = some similarity := Except.ok.inj answered
    have known : Each (BestList f fun v u => u ∈ offered v t.encounters) t.lists :=
      fun v l found => ⟨(complete.sound.lists v l found).valid, complete.best v l found⟩
    have told := best_tells number known fun offer (member : offer ∈ e.offers) =>
      ⟨other_of_offer different member, value_of_offer symmetric answered member⟩
    refine told.mono fun v l known => known.best.widen ?_ ?_
    · exact fun u now => mem_offered_cons.mpr now
    · exact fun u _ now _ _ => mem_offered_cons.mp now
  | picked node ids =>
    refine complete.best.modify ?_ ?_
    · exact fun l best => NeighborList.best_check best ids
    · exact fun v l _ best => best

theorem complete_start (f : Nat → Nat → Option Float) (signals : Signals) (n capacity : Nat) :
    Complete f n capacity (Descent.start signals n capacity).standing := by
  refine ⟨sound_start _ signals n capacity, ?_⟩
  intro v l found
  obtain rfl := eq_of_getElem?_replicate found
  refine (NeighborList.best_empty (f v) capacity).widen (fun u none => none.elim) ?_
  exact fun u _ none _ _ => List.not_mem_nil none

end NeighborGraph
