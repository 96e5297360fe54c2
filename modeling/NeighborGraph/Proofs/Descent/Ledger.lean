import Mathlib.Algebra.BigOperators.Group.Finset.Piecewise
import Mathlib.Algebra.Order.BigOperators.Group.Finset
import NeighborGraph.Proofs.Descent.Lists
import NeighborGraph.Proofs.NeighborList.Replay

/-!
# The ledger of a descent

With a comparison that is a symmetric function of the two nodes, the encounters of a descent settle
its lists: every list is the one that the offers to its node lead to, but for the marks of what was
picked (`Replayed`).  So they settle which offers were accepted, and `acceptances` counts these.

The updates of an iteration are acceptances of that iteration (`Search.counts_iteration`), and no
acceptance is counted in two iterations.
-/

namespace NeighborGraph

open NeighborGraph.Action NeighborList

/-! ### Offers to all nodes -/

/-- What was offered to every node, the latest offer first. -/
abbrev Offers := Nat → List Nat

namespace Offers

/-- One more offer, to an owner of a list and of a candidate for it. -/
def add (h : Offers) (offer : Nat × Nat) : Offers := fun v =>
  if offer.1 = v then offer.2 :: h v else h v

end Offers

theorem offered_cons (v : Nat) (e : Encounter) (encounters : List Encounter) :
    offered v (e :: encounters) = offered v [e] ++ offered v encounters := by
  rw [offered, offered, offered, ← List.filterMap_append, ← List.flatMap_append,
    List.singleton_append]

theorem mem_offered_one {v u : Nat} {e : Encounter} : u ∈ offered v [e] ↔ (v, u) ∈ e.offers := by
  rw [mem_offered_cons]
  exact or_iff_left List.not_mem_nil

/-- The offers of an encounter of different nodes go to different nodes. -/
theorem foldl_offers {e : Encounter} (different : e.nodes.1 ≠ e.nodes.2)
    (encounters : List Encounter) :
    e.offers.foldl Offers.add (offered · encounters) = (offered · (e :: encounters)) := by
  funext v
  rw [offered_cons v e]
  by_cases both : e.bothWays = true
  · have offers : e.offers = [e.nodes, e.nodes.swap] := if_pos both
    rw [offered, List.flatMap_singleton, offers]
    simp only [List.foldl_cons, List.foldl_nil, Offers.add, List.filterMap_cons,
      List.filterMap_nil, Prod.fst_swap, Prod.snd_swap]
    by_cases first : e.nodes.1 = v
    · have second : ¬e.nodes.2 = v := fun same => different (first.trans same.symm)
      rw [if_pos first, if_neg second, if_neg second, if_pos first]
      rfl
    · rw [if_neg first, if_neg first]
      split <;> rfl
  · have offers : e.offers = [e.nodes] := if_neg both
    rw [offered, List.flatMap_singleton, offers]
    simp only [List.foldl_cons, List.foldl_nil, Offers.add, List.filterMap_cons,
      List.filterMap_nil]
    split <;> rfl

/-! ### Lists that follow the offers -/

/-- Every list is the one its offers lead to, but for marks. -/
def Follows (f : Nat → Nat → Option Float) (capacity : Nat) (h : Offers)
    (lists : Array NeighborList) : Prop :=
  Each (fun v l => l.unmarked = replay (f v) v capacity (h v)) lists

/-- Number of offers that were accepted, by any of `n` nodes. -/
def acceptances (f : Nat → Nat → Option Float) (n capacity : Nat) (h : Offers) : Nat :=
  ∑ v ∈ Finset.range n, (accepted (f v) v capacity (h v)).length

/-- How many lists an offer changes: one, or none. -/
def changes (similarity : Float) (lists : Array NeighborList) (offer : Nat × Nat) : Nat :=
  match lists[offer.1]? with
  | none => 0
  | some l => (l.add offer.1 offer.2 similarity).1.toNat

variable {f : Nat → Nat → Option Float} {n capacity : Nat}

section Tell

variable {h : Offers} {lists : Array NeighborList} {owner candidate : Nat} {s : Float}
  (number : s.isNaN = false) (value : f owner candidate = some s)
include number value

theorem follows_tell (follows : Follows f capacity h lists) :
    Follows f capacity (h.add (owner, candidate)) (tell s lists (owner, candidate)) := by
  refine Each.modify follows ?_ ?_
  · intro l same
    rw [Offers.add, if_pos rfl, replay, hear_of_some value number, ← same, add_unmarked]
  · intro v l elsewhere same
    rw [Offers.add, if_neg elsewhere.symm]
    exact same

/-- An offer that changes a list is an acceptance. -/
theorem acceptances_add (follows : Follows f capacity h lists) (size : lists.size = n)
    (inside : owner < n) :
    acceptances f n capacity (h.add (owner, candidate))
      = acceptances f n capacity h + changes s lists (owner, candidate) := by
  have there : lists[owner]? = some lists[owner] := Array.getElem?_eq_getElem (size ▸ inside)
  have changed : changes s lists (owner, candidate)
      = (lists[owner].add owner candidate s).1.toNat := by
    rw [changes, there]
  have one (v : Nat) : (accepted (f v) v capacity (h.add (owner, candidate) v)).length
      = (accepted (f v) v capacity (h v)).length
        + if v = owner then changes s lists (owner, candidate) else 0 := by
    by_cases same : owner = v
    · subst same
      have heard : (hear (f owner) owner (replay (f owner) owner capacity (h owner)) candidate).1
          = (lists[owner].add owner candidate s).1 := by
        rw [hear_of_some value number, ← follows owner _ there, add_unmarked]
      rw [Offers.add, if_pos rfl, if_pos rfl, accepted, heard, changed]
      cases (lists[owner].add owner candidate s).1 <;> rfl
    · rw [Offers.add, if_neg same, if_neg (Ne.symm same)]
      rfl
  rw [acceptances, Finset.sum_congr rfl fun v _ => one v, Finset.sum_add_distrib,
    Finset.sum_ite_eq', if_pos (Finset.mem_range.mpr inside), acceptances]

end Tell

theorem acceptances_cons (e : Encounter) (encounters : List Encounter) :
    acceptances f n capacity (offered · encounters)
      ≤ acceptances f n capacity (offered · (e :: encounters)) := by
  refine Finset.sum_le_sum fun v _ => ?_
  show (accepted (f v) v capacity (offered v encounters)).length
    ≤ (accepted (f v) v capacity (offered v (e :: encounters))).length
  rw [offered_cons v e]
  exact (accepted_suffix _ _).length_le

/-- When every accepted candidate is a node, acceptances are pairs of different nodes. -/
theorem acceptances_le {h : Offers}
    (inside : ∀ v, ∀ u ∈ accepted (f v) v capacity (h v), u < n) :
    acceptances f n capacity h ≤ n * (n - 1) := by
  have each : ∀ v ∈ Finset.range n, (accepted (f v) v capacity (h v)).length ≤ n - 1 := by
    intro v member
    exact length_accepted_le (Finset.mem_range.mp member) (inside v)
  have total := Finset.sum_le_card_nsmul _ _ _ each
  rw [Finset.card_range] at total
  exact total

/-! ### A property that lasts -/

/-- There is a list for each of `n` nodes, it follows the offers, and only nodes were accepted. -/
structure Replayed (f : Nat → Nat → Option Float) (n capacity : Nat) (t : Standing) : Prop where
  size : t.lists.size = n
  follows : Follows f capacity (offered · t.encounters) t.lists
  inside : ∀ v, ∀ u ∈ accepted (f v) v capacity (offered v t.encounters), u < n

theorem follows_tells {h : Offers} {lists : Array NeighborList} {offers : List (Nat × Nat)}
    {s : Float} (number : s.isNaN = false)
    (values : ∀ offer ∈ offers, f offer.1 offer.2 = some s) (follows : Follows f capacity h lists) :
    Follows f capacity (offers.foldl Offers.add h) (offers.foldl (tell s) lists) := by
  induction offers generalizing h lists with
  | nil => exact follows
  | cons offer rest ih =>
    refine ih (fun next member => values next (List.mem_cons_of_mem _ member)) ?_
    exact follows_tell number (values offer List.mem_cons_self) follows

/-- Lists go on following the offers. -/
theorem lasting_replayed (symmetric : ∀ a b, f a b = f b a) (n capacity : Nat) :
    Lasting (.ofFunction f) n (Replayed f n capacity) := by
  refine ⟨fun t replayed => replayed.size, ?_⟩
  intro t t' replayed step
  cases step with
  | passed e answer answered nothing =>
    have answered : f e.nodes.1 e.nodes.2 = answer := Except.ok.inj answered
    have silent (v : Nat) : ∀ u ∈ offered v [e], (f v u).filter (!·.isNaN) = none := by
      intro u member
      rw [value_of_offer symmetric answered (mem_offered_one.mp member)]
      exact nothing
    refine ⟨replayed.size, ?_, ?_⟩
    · intro v l found
      show l.unmarked = replay (f v) v capacity (offered v (e :: t.encounters))
      rw [offered_cons v e, (replay_of_nothing (silent v) _).1]
      exact replayed.follows v l found
    · intro v u member
      have member : u ∈ accepted (f v) v capacity (offered v (e :: t.encounters)) := member
      rw [offered_cons v e, (replay_of_nothing (silent v) _).2] at member
      exact replayed.inside v u member
  | met e similarity answered number different first second =>
    have answered : f e.nodes.1 e.nodes.2 = some similarity := Except.ok.inj answered
    refine ⟨(size_tells ..).trans replayed.size, ?_, ?_⟩
    · have told := follows_tells number
        (fun offer member => value_of_offer symmetric answered member) replayed.follows
      rw [foldl_offers different] at told
      exact told
    · intro v u member
      have member : u ∈ accepted (f v) v capacity (offered v (e :: t.encounters)) := member
      rw [offered_cons v e] at member
      rcases mem_accepted_append member with now | before
      · rw [replayed.size] at first second
        rcases mem_offers (mem_offered_one.mp now) with nodes | nodes
        · rw [nodes] at second
          exact second
        · rw [nodes] at first
          exact first
      · exact replayed.inside v u before
  | picked node ids =>
    refine ⟨Array.size_modify.trans replayed.size, replayed.follows.modify ?_ ?_, replayed.inside⟩
    · intro l same
      rw [unmarked_check]
      exact same
    · exact fun v l _ same => same

theorem replayed_start (f : Nat → Nat → Option Float) (signals : Signals) (n capacity : Nat) :
    Replayed f n capacity (Descent.start signals n capacity).standing := by
  refine ⟨Array.size_replicate, ?_, fun v u none => absurd none List.not_mem_nil⟩
  intro v l found
  obtain rfl := eq_of_getElem?_replicate found
  rfl

/-- No step takes an acceptance back. -/
theorem Lasting.withAcceptances {comparison : Comparison} {P : Standing → Prop}
    (lasts : Lasting comparison n P) (f : Nat → Nat → Option Float) (capacity most : Nat) :
    Lasting comparison n fun t =>
      P t ∧ most ≤ acceptances f n capacity (offered · t.encounters) := by
  refine ⟨fun t kept => lasts.sized t kept.1, ?_⟩
  intro t t' kept step
  refine ⟨lasts.step t t' kept.1 step, ?_⟩
  cases step with
  | passed e => exact Nat.le_trans kept.2 (acceptances_cons e _)
  | met e => exact Nat.le_trans kept.2 (acceptances_cons e _)
  | picked => exact kept.2

end NeighborGraph
