import NeighborGraph.Proofs.NeighborList.Replay

/-!
# The order of offers has no part in the result

Ranges are worked on in an order nobody knows, so a list gets its offers in any order, the same one more
than once, and offers of its own node or without a number among them.  As long as a candidate always
comes with the same similarity, none of that shows: the list ends as the front of all candidates, best
first (`offerAll_settles`), which says nothing of the order in which they came.

Offers of one similarity for each candidate are a replay of these candidates, for which all of this is
known but for one thing: two rankings of the same candidates are the same (`ranked_unique`).
-/

namespace NeighborGraph.NeighborList

/-- The candidates that a list takes when some are offered one after the other, and the list in the
end. -/
def offerAll (owner : Nat) (l : NeighborList) : (calls : List (Nat × Float)) → List Nat × NeighborList
  | [] => ([], l)
  | (candidate, similarity) :: rest =>
    let (changed, l) := l.add owner candidate similarity
    let (taken, l) := offerAll owner l rest
    (if changed then candidate :: taken else taken, l)

/-- Every candidate always comes with the same similarity. -/
def Steady (calls : List (Nat × Float)) : Prop :=
  ∀ c ∈ calls, ∀ c' ∈ calls, c.1 = c'.1 → c.2 = c'.2

/-- The different candidates of some calls that are not the owner and have a number as their similarity:
more similar ones first, of equally similar ones the smaller number first. -/
structure Ranked (owner : Nat) (calls : List (Nat × Float)) (ranked : List Neighbor) : Prop where
  ordered : ranked.Pairwise fun x y =>
    y.similarity < x.similarity ∨ ((x.similarity == y.similarity) = true ∧ x.id < y.id)
  distinct : (ranked.map (·.id)).Nodup
  members : ∀ x, x ∈ ranked ↔
    (x.id, x.similarity) ∈ calls ∧ x.id ≠ owner ∧ x.similarity.isNaN = false ∧ x.checked = false

variable {owner capacity : Nat} {calls : List (Nat × Float)}

/-! ### Offers of one similarity for each candidate -/

/-- A similarity for each candidate, which all calls come with. -/
def GivenBy (similarity : Nat → Option Float) (calls : List (Nat × Float)) : Prop :=
  ∀ c ∈ calls, similarity c.1 = some c.2

theorem Steady.givenBy (steady : Steady calls) : GivenBy (calls.lookup ·) calls := by
  intro c member
  show calls.lookup c.1 = some c.2
  cases found : calls.lookup c.1 with
  | none =>
    have absent := List.lookup_eq_none_iff.mp found c member
    rw [bne_self_eq_false] at absent
    exact absurd absent Bool.false_ne_true
  | some s =>
    obtain ⟨before, behind, split, -⟩ := List.lookup_eq_some_iff.mp found
    have there : (c.1, s) ∈ calls := split ▸ List.mem_append_right _ List.mem_cons_self
    exact congrArg some (steady (c.1, s) there c member rfl)

section GivenBy

variable {similarity : Nat → Option Float}

/-- An offer is heard as it is made; without a number it is refused. -/
theorem hear_eq_add {candidate : Nat} {s : Float} (value : similarity candidate = some s)
    (l : NeighborList) : hear similarity owner l candidate = l.add owner candidate s := by
  cases number : s.isNaN with
  | false => exact hear_of_some value number
  | true =>
    have nothing : (similarity candidate).filter (!·.isNaN) = none := by
      rw [value, Option.filter_some, number]
      rfl
    have refused : l.refuses owner candidate s = true := by
      rw [refuses, number, Bool.or_true, Bool.true_or]
    rw [hear_of_none nothing, add, if_pos refused]

/-- Offers one after the other are a replay, and what is taken is what is accepted. -/
theorem offerAll_replay (given : GivenBy similarity calls) (earlier : List Nat) :
    (offerAll owner (replay similarity owner capacity earlier) calls).2
        = replay similarity owner capacity ((calls.map (·.1)).reverse ++ earlier)
      ∧ (offerAll owner (replay similarity owner capacity earlier) calls).1.reverse
          ++ accepted similarity owner capacity earlier
        = accepted similarity owner capacity ((calls.map (·.1)).reverse ++ earlier) := by
  -- the calls of the replay are in the other order, so the first call is put to the earlier ones
  induction calls generalizing earlier with
  | nil => exact ⟨rfl, rfl⟩
  | cons call rest ih =>
    obtain ⟨candidate, s⟩ := call
    have heard : hear similarity owner (replay similarity owner capacity earlier) candidate
        = (replay similarity owner capacity earlier).add owner candidate s :=
      hear_eq_add (given (candidate, s) List.mem_cons_self) _
    have next : ((replay similarity owner capacity earlier).add owner candidate s).2
        = replay similarity owner capacity (candidate :: earlier) := by
      rw [replay, heard]
    obtain ⟨list, taken⟩ := ih (fun c member => given c (List.mem_cons_of_mem _ member))
      (candidate :: earlier)
    have order : (((candidate, s) :: rest).map (·.1)).reverse ++ earlier
        = (rest.map (·.1)).reverse ++ candidate :: earlier := by
      rw [List.map_cons, List.reverse_cons, List.append_assoc]
      rfl
    rw [order, ← list, ← taken, offerAll]
    dsimp only
    rw [next]
    refine ⟨rfl, ?_⟩
    rw [accepted, heard]
    cases ((replay similarity owner capacity earlier).add owner candidate s).1 with
    | true => simp only [if_true, List.reverse_cons, List.append_assoc, List.singleton_append]
    | false => rfl

/-- No offer is remembered as picked. -/
theorem unchecked_replay (offers : List Nat) :
    ∀ x ∈ (replay similarity owner capacity offers).entries, x.checked = false := by
  induction offers with
  | nil => exact fun x member => absurd member List.not_mem_nil
  | cons candidate earlier ih =>
    intro x member
    rw [replay] at member
    rcases heard_cases similarity candidate with nothing | ⟨s, value, number⟩
    · rw [hear_of_none nothing] at member
      exact ih x member
    · rw [hear_of_some value number] at member
      rcases mem_add member with rfl | before
      · rfl
      · exact ih x before

theorem capacity_replay (offers : List Nat) :
    (replay similarity owner capacity offers).capacity = capacity := by
  induction offers with
  | nil => rfl
  | cons candidate earlier ih =>
    rw [replay]
    rcases heard_cases similarity candidate with nothing | ⟨s, value, number⟩
    · rw [hear_of_none nothing]
      exact ih
    · rw [hear_of_some value number, capacity_add]
      exact ih

/-- The ranking of all candidates but the owner. -/
theorem ranked_ranking (given : GivenBy similarity calls) :
    Ranked owner calls ((ranking similarity ((calls.map (·.1)).filter (· != owner))).map
      Scored.neighbor) := by
  have before := ranking_pairwise similarity ((calls.map (·.1)).filter (· != owner))
  refine ⟨List.pairwise_map.mpr (before.imp ?_), ?_, fun x => ?_⟩
  · intro p q ahead
    exact (Neighbor.precedes_iff_better (x := p.neighbor) (y := q.neighbor) p.number q.number).mp ahead
  · rw [List.map_map]
    refine List.pairwise_map.mpr (before.imp_of_mem ?_)
    intro p q first second ahead same
    -- one candidate has one similarity, so it is not before itself
    have values := (mem_ranking.mp first).2.symm.trans
      ((congrArg similarity same).trans (mem_ranking.mp second).2)
    have twice : p = q := Scored.ext same (Option.some.inj values)
    rw [twice, Scored.before_iff] at ahead
    exact lt_irrefl _ ahead
  · rw [List.mem_map]
    constructor
    · rintro ⟨p, member, rfl⟩
      obtain ⟨candidate, value⟩ := mem_ranking.mp member
      obtain ⟨inside, other⟩ := List.mem_filter.mp candidate
      obtain ⟨c, call, same⟩ := List.mem_map.mp inside
      have similar : c.2 = p.similarity :=
        Option.some.inj ((given c call).symm.trans (same ▸ value))
      refine ⟨?_, bne_iff_ne.mp other, p.number, rfl⟩
      show (p.node, p.similarity) ∈ calls
      rw [← same, ← similar]
      exact call
    · rintro ⟨call, other, number, new⟩
      refine ⟨⟨x.id, x.similarity, number⟩, mem_ranking.mpr ⟨?_, given _ call⟩, ?_⟩
      · exact List.mem_filter.mpr ⟨List.mem_map.mpr ⟨_, call, rfl⟩, bne_iff_ne.mpr other⟩
      · rw [Scored.neighbor, ← new]

theorem entries_of_unchecked {l : NeighborList} (unchecked : ∀ x ∈ l.entries, x.checked = false) :
    l.entries = l.scores.map fun p => { id := p.1, similarity := p.2 } := by
  rw [scores, List.map_map]
  refine (List.map_id _).symm.trans (List.map_congr_left fun x member => ?_)
  show x = Neighbor.mk x.id x.similarity false
  rw [← unchecked x member]

/-- A replayed list is the front of the ranking. -/
theorem replay_eq_ranked (given : GivenBy similarity calls) :
    ∃ ranked, Ranked owner calls ranked
      ∧ replay similarity owner capacity (calls.map (·.1)).reverse
        = { capacity, entries := ranked.take capacity } := by
  let candidates := (calls.map (·.1)).filter (· != owner)
  let l := replay similarity owner capacity (calls.map (·.1)).reverse
  refine ⟨_, ranked_ranking given, ?_⟩
  obtain ⟨valid, best⟩ : l.Valid owner ∧ l.Best similarity _ := best_replay _
  have others (u : Nat) : u ∈ (calls.map (·.1)).reverse ∧ u ≠ owner ↔ u ∈ candidates := by
    rw [List.mem_reverse, List.mem_filter, bne_iff_ne]
  have all : l.Best similarity (· ∈ candidates) :=
    best.widen (fun u known => (others u).mp known) fun u _ member _ _ => (others u).mpr member
  have front := scores_of_best valid all
  have size : l.capacity = capacity := capacity_replay _
  have entries : l.entries = ((ranking similarity candidates).map Scored.neighbor).take capacity := by
    rw [entries_of_unchecked (unchecked_replay _), front, size, List.map_map, ← List.map_take]
    rfl
  show NeighborList.mk l.capacity l.entries = _
  rw [size, entries]

end GivenBy

/-! ### The result -/

/-- Two rankings of the same candidates are the same. -/
theorem ranked_unique {calls' : List (Nat × Float)} (same : ∀ c, c ∈ calls' ↔ c ∈ calls)
    {ranked ranked' : List Neighbor} (h : Ranked owner calls ranked)
    (h' : Ranked owner calls' ranked') : ranked' = ranked := by
  have members (x : Neighbor) : x ∈ ranked' ↔ x ∈ ranked := by
    rw [h.members, h'.members, same]
  have ranks {calls : List (Nat × Float)} {ranked : List Neighbor} (h : Ranked owner calls ranked) :
      ranked.Pairwise fun x y => x.rank < y.rank := by
    refine h.ordered.imp_of_mem fun {x y} first second ahead => ?_
    obtain ⟨-, -, number, -⟩ := (h.members x).mp first
    obtain ⟨-, -, number', -⟩ := (h.members y).mp second
    rw [← Neighbor.precedes_iff number number', Neighbor.precedes_iff_better number number']
    exact ahead
  have perm : ranked'.Perm ranked :=
    (List.perm_ext_iff_of_nodup h'.distinct.of_map h.distinct.of_map).mpr members
  exact perm.eq_of_pairwise (fun _ _ _ _ less more => absurd more (lt_asymm less)) (ranks h') (ranks h)

/-- Offers to an empty list, in which every candidate always comes with the same similarity, leave the
best of all candidates but the owner and those without a number, as many as there are places.  No
candidate is taken twice.  The same offers in another order, or more or less often, leave the same
list. -/
theorem offerAll_settles (owner capacity : Nat) {calls : List (Nat × Float)}
    (steady : Steady calls) :
    let r := offerAll owner { capacity } calls
    (∃ ranked, Ranked owner calls ranked
        ∧ r.2 = { capacity, entries := ranked.take capacity })
      ∧ r.1.Nodup
      ∧ ∀ calls', (∀ c, c ∈ calls' ↔ c ∈ calls) → (offerAll owner { capacity } calls').2 = r.2 := by
  intro r
  -- whatever the calls, they are a replay from the empty list
  have settles {calls : List (Nat × Float)} (steady : Steady calls) :
      (∃ ranked, Ranked owner calls ranked
          ∧ (offerAll owner { capacity } calls).2 = { capacity, entries := ranked.take capacity })
        ∧ (offerAll owner { capacity } calls).1.Nodup := by
    let offers := (calls.map (·.1)).reverse
    obtain ⟨list, taken⟩ : (offerAll owner { capacity } calls).2
          = replay _ owner capacity (offers ++ [])
        ∧ (offerAll owner { capacity } calls).1.reverse ++ []
          = accepted _ owner capacity (offers ++ []) := offerAll_replay steady.givenBy []
    rw [List.append_nil] at list taken
    rw [List.append_nil] at taken
    refine ⟨?_, List.nodup_reverse.mp ?_⟩
    · rw [list]
      exact replay_eq_ranked steady.givenBy
    · rw [taken]
      exact nodup_accepted _
  obtain ⟨⟨ranked, best, ends⟩, distinct⟩ := settles steady
  refine ⟨⟨ranked, best, ends⟩, distinct, fun calls' same => ?_⟩
  have steady' : Steady calls' := fun c member c' member' =>
    steady c ((same c).mp member) c' ((same c').mp member')
  obtain ⟨⟨ranked', best', ends'⟩, -⟩ := settles steady'
  rw [ends', ranked_unique same best best']
  exact ends.symm

/-- Offers to node 0, among them a repeated one, one of node 0, one without a number, and zeros of both
signs. -/
def someOffers : List (Nat × Float) :=
  [(4, 0.0), (1, 0.5), (0, 1.0), (2, 0.0 / 0.0), (3, -0.0), (1, 0.5)]

theorem offerAll_settles_some :
    Steady someOffers ∧ (offerAll 0 { capacity := 2 } someOffers.reverse).2.ids = [1, 3] := by
  have steady : Steady someOffers := by
    intro c member c' member' same
    simp only [someOffers, List.mem_cons, List.not_mem_nil, or_false] at member member'
    rcases member with rfl | rfl | rfl | rfl | rfl | rfl <;>
      rcases member' with rfl | rfl | rfl | rfl | rfl | rfl <;>
      first | exact absurd same (by decide) | rfl
  refine ⟨steady, ?_⟩
  rw [(offerAll_settles 0 2 steady).2.2 someOffers.reverse fun c => List.mem_reverse]
  decide +kernel

end NeighborGraph.NeighborList
