import NeighborGraph.Proofs.Descent.Result
import NeighborGraph.Proofs.Descent.Seeding
import NeighborGraph.Proofs.Descent.Updates

/-!
# Lists with room for all other nodes

When every list has room for all other nodes, the random candidates of a node are all other nodes.
After them nothing is left to find: whatever is offered later was offered before, no list changes any
more, and the first iteration is quiet, whatever was drawn (`Search.round_exhausted`).  The lists are
then what an exhaustive comparison of all pairs would come to.
-/

namespace NeighborGraph

open NeighborGraph.Action NeighborList

variable {f : Nat → Nat → Option Float} {n capacity : Nat}

/-! ### Nothing left to find -/

/-- All nodes were offered to each other, which came to this many acceptances. -/
structure Settled (f : Nat → Nat → Option Float) (n capacity total : Nat) (t : Standing) : Prop where
  replayed : Replayed f n capacity t
  all : AllOffered n t
  total : acceptances f n capacity (offered · t.encounters) = total

/-- Another encounter of nodes brings no acceptance. -/
theorem acceptances_of_allOffered {t : Standing} (all : AllOffered n t) {e : Encounter}
    (first : e.nodes.1 < n) (second : e.nodes.2 < n) :
    acceptances f n capacity (offered · (e :: t.encounters))
      = acceptances f n capacity (offered · t.encounters) := by
  refine Finset.sum_congr rfl fun v member => ?_
  show (accepted (f v) v capacity (offered v (e :: t.encounters))).length
    = (accepted (f v) v capacity (offered v t.encounters)).length
  rw [offered_cons v e, accepted_of_offered]
  intro u now other
  refine all v (Finset.mem_range.mp member) u ?_ other
  rcases mem_offers (mem_offered_one.mp now) with nodes | nodes
  · rw [nodes] at second
    exact second
  · rw [nodes] at first
    exact first

theorem AllOffered.cons {t : Standing} (all : AllOffered n t) (e : Encounter)
    (lists : Array NeighborList) : AllOffered n (t.after e lists) :=
  fun v inside u small other => mem_offered_cons.mpr (.inr (all v inside u small other))

/-- Nothing is accepted any more. -/
theorem lasting_settled (symmetric : ∀ a b, f a b = f b a) (n capacity total : Nat) :
    Lasting (.ofFunction f) n (Settled f n capacity total) := by
  refine ⟨fun t settled => settled.replayed.size, ?_⟩
  intro t t' settled step
  have replayed := (lasting_replayed symmetric n capacity).step t t' settled.replayed step
  cases step with
  | passed e answer answered nothing =>
    have answered : f e.nodes.1 e.nodes.2 = answer := Except.ok.inj answered
    refine ⟨replayed, settled.all.cons e _, Eq.trans ?_ settled.total⟩
    refine Finset.sum_congr rfl fun v _ => congrArg List.length ?_
    show accepted (f v) v capacity (offered v (e :: t.encounters))
      = accepted (f v) v capacity (offered v t.encounters)
    rw [offered_cons v e]
    refine (replay_of_nothing (fun u member => ?_) _).2
    rw [value_of_offer symmetric answered (mem_offered_one.mp member)]
    exact nothing
  | met e similarity answered number different first second =>
    rw [settled.replayed.size] at first second
    refine ⟨replayed, settled.all.cons e _, Eq.trans ?_ settled.total⟩
    exact acceptances_of_allOffered settled.all first second
  | picked node ids => exact ⟨replayed, settled.all, settled.total⟩

/-! ### The best of all other nodes -/

/-- The nodes other than a given one. -/
def others (n v : Nat) : List Nat := (List.range n).filter (· ≠ v)

theorem mem_others {n v u : Nat} : u ∈ others n v ↔ u < n ∧ u ≠ v := by
  rw [others, List.mem_filter, List.mem_range, decide_eq_true_iff]

theorem length_ranking_le (similarity : Nat → Option Float) (candidates : List Nat) :
    (ranking similarity candidates).length ≤ candidates.length := by
  rw [ranking, List.length_mergeSort]
  exact Nat.le_trans (List.length_filterMap_le ..) (List.dedup_sublist candidates).length_le

theorem length_others_lt {n v : Nat} (inside : v < n) : (others n v).length ≤ n - 1 := by
  have distinct : (others n v).Nodup := List.nodup_range.filter _
  exact (Sampler.others_full inside distinct fun u member => mem_others.mp member).1

/-- A list that was offered all other nodes, and has room for them, is their ranking. -/
theorem scores_of_allOffered {t : Standing} (complete : Complete f n (n - 1) t)
    (all : AllOffered n t) {v : Nat} (inside : v < n) {l : NeighborList}
    (found : t.lists[v]? = some l) :
    l.scores = (ranking (f v) (others n v)).map fun p => (p.node, p.similarity) := by
  have sound := complete.sound.lists v l found
  have best := complete.best v l found
  have exactly : l.Best (f v) (· ∈ others n v) := by
    refine ⟨fun x member => ⟨mem_others.mpr ⟨(sound.known x member).1, ?_⟩, ?_⟩, ?_⟩
    · rintro rfl
      exact sound.valid.others (List.mem_map_of_mem member)
    · exact (best.known x member).2
    · intro u s member value number
      obtain ⟨small, other⟩ := mem_others.mp member
      exact best.kept u s (all v inside u small other) value number
  have fits : (ranking (f v) (others n v)).length ≤ l.capacity := by
    rw [sound.capacity]
    exact Nat.le_trans (length_ranking_le _ _) (length_others_lt inside)
  rw [scores_of_best sound.valid exactly, List.take_of_length_le fits]

namespace Search

open Descent

variable {s : Search} {o : Outcome} {d : Descent}

/-- Lists that hold the best of their offers, which settle them. -/
structure Followed (f : Nat → Nat → Option Float) (n capacity : Nat) (t : Standing) : Prop where
  complete : Complete f n capacity t
  replayed : Replayed f n capacity t

/-- All nodes were offered to each other, and no iteration had an update. -/
structure Exhausted (f : Nat → Nat → Option Float) (n capacity : Nat) (t : Standing) : Prop where
  complete : Complete f n capacity t
  replayed : Replayed f n capacity t
  all : AllOffered n t
  quiet : ∀ updates ∈ t.updateCounts, updates = 0

section Rounds

variable (function : s.comparison = .ofFunction f) (symmetric : ∀ a b, f a b = f b a)
include function symmetric

/-- An iteration has no updates, because all it could accept was offered before. -/
theorem round_exhausted (capacity signal : Nat) :
    s.Round signal (Exhausted f s.nodeCount capacity) := by
  intro counts
  let Q (t : Standing) : Prop := Exhausted f s.nodeCount capacity t ∧ t.updateCounts = counts
  refine ensures_of_standing (P := Q) fun t ⟨exhausted, same⟩ => ?_
  obtain ⟨complete, replayed, all, quiet⟩ := exhausted
  let total := acceptances f s.nodeCount capacity (offered · t.encounters)
  have lasts : Lasting s.comparison s.nodeCount fun t =>
      (Complete f s.nodeCount capacity t ∧ Settled f s.nodeCount capacity total t)
        ∧ t.updateCounts = counts := by
    rw [function]
    exact ((lasting_complete symmetric _ _).and (lasting_settled symmetric _ _ _)).withCounts counts
  refine (counts_iteration function symmetric lasts (fun t kept => kept.1.2.replayed)
    (fun t kept => Nat.le_of_eq kept.1.2.total.symm) signal).mono ?_ ?_
  · intro d stands
    rw [stands]
    exact ⟨⟨complete, replayed, all, rfl⟩, same⟩
  · rintro _ d ⟨⟨⟨complete, settled⟩, same'⟩, counted⟩
    have none : d.updates = 0 := by
      have enough : total + d.updates ≤ total := Nat.le_trans counted (Nat.le_of_eq settled.total)
      omega
    refine ⟨⟨?_, ?_, settled.all, ?_⟩, same'⟩
    · exact ⟨⟨complete.sound.size, complete.sound.recorded, complete.sound.lists⟩, complete.best⟩
    · exact ⟨settled.replayed.size, settled.replayed.follows, settled.replayed.inside⟩
    · intro updates member
      rcases List.mem_cons.mp member with rfl | before
      · exact none
      · exact quiet updates (same ▸ before)

theorem seeds_exhausted (fit : s.nodeCount - 1 ≤ s.config.topK.toNat) (capacity signal : Nat) :
    (s.seedAll signal).Ensures
      (fun d => Followed f s.nodeCount capacity d.standing ∧ d.standing.updateCounts = [])
      fun _ d => Exhausted f s.nodeCount capacity d.standing ∧ d.standing.updateCounts = [] := by
  have lasts : Lasting s.comparison s.nodeCount fun t =>
      (Complete f s.nodeCount capacity t ∧ Replayed f s.nodeCount capacity t)
        ∧ t.updateCounts = [] := by
    rw [function]
    exact ((lasting_complete symmetric _ _).and (lasting_replayed symmetric _ _)).withCounts []
  refine (seeds_all lasts fit signal).mono
    (fun _ kept => ⟨⟨kept.1.complete, kept.1.replayed⟩, kept.2⟩) ?_
  rintro _ d ⟨⟨⟨complete, replayed⟩, same⟩, all⟩
  refine ⟨⟨complete, replayed, all, ?_⟩, same⟩
  rw [same]
  exact fun updates none => absurd none List.not_mem_nil

end Rounds

/-- What is cut off of a ranking. -/
theorem scores_cut {l : NeighborList} {ranked : List Scored}
    (h : l.scores = ranked.map fun p => (p.node, p.similarity)) :
    (s.cut l).scores
      = (if 0.0 < s.config.similarityCutoff then
          ranked.filter fun p => !decide (p.similarity < s.config.similarityCutoff)
        else ranked).map fun p => (p.node, p.similarity) := by
  rw [cut]
  by_cases some : 0.0 < s.config.similarityCutoff
  · rw [if_pos some, if_pos some]
    exact scores_filter (NumberLine.isNaN_of_lt some) h
  · rw [if_neg some, if_neg some]
    exact h

/-- Without any updates the first iteration is the last one. -/
theorem first_of_tally {limit most : Nat} {counts : List Nat} {r : Rounds}
    (tally : r.Tally limit most counts) (some : 0 < most)
    (quiet : ∀ updates ∈ counts, updates = 0) : r.converged = true ∧ r.iterations = 1 := by
  have earlier : counts.tail = [] := by
    cases rest : counts.tail with
    | nil => rfl
    | cons c before =>
      have above := tally.earlier c (rest ▸ List.mem_cons_self)
      have none := quiet c (List.mem_of_mem_tail (rest ▸ List.mem_cons_self))
      omega
  have one := tally.iterations_pos some
  have length : counts.length - 1 = 0 := by
    rw [← List.length_tail, earlier, List.length_nil]
  have iterations : r.iterations = 1 := by
    have same := tally.iterations
    omega
  cases converged : r.converged with
  | true => exact ⟨rfl, iterations⟩
  | false =>
    obtain ⟨last, before, rfl⟩ := List.exists_cons_of_length_pos (l := counts)
      (tally.iterations ▸ one)
    have above := (tally.loud converged).2 last List.mem_cons_self
    have none := quiet last List.mem_cons_self
    omega

/-- When all other nodes fit in a list, a run that succeeds converges in its first iteration, and the
list of a node is the ranking of all other nodes, less those that the settings cut off.  Nothing that
is drawn has a part in that. -/
theorem run_exhaustive (function : s.comparison = .ofFunction f)
    (symmetric : ∀ a b, f a b = f b a) {entropy : UInt64} {signals : Signals} {signal : Nat}
    (nodes : 2 ≤ s.nodeCount) (fit : s.nodeCount - 1 ≤ s.config.topK.toNat)
    (run : s.run entropy signals signal = (.ok o, d)) :
    o.converged = true ∧ o.iterations = 1
      ∧ ∀ v < s.nodeCount,
          let cutoff := s.config.similarityCutoff
          let ranked := ranking (f v) (others s.nodeCount v)
          let left :=
            if 0.0 < cutoff then ranked.filter fun p => !decide (p.similarity < cutoff)
            else ranked
          (o.neighbors v).map (fun x => (x.id, x.similarity))
            = left.map fun p => (p.node, p.similarity) := by
  have places : s.config.topK ≠ 0 := by
    intro none
    rw [none] at fit
    have zero : (0 : UInt64).toNat = 0 := rfl
    omega
  have capacity : s.config.listCapacity s.nodeCount = s.nodeCount - 1 := by
    rw [Config.listCapacity]
    omega
  obtain ⟨valid, t, exhausted, ends⟩ := of_rounds (fun t kept => kept.complete.sound.size)
    (seeds_exhausted function symmetric fit (s.config.listCapacity s.nodeCount) signal)
    (round_exhausted function symmetric _ signal)
    ⟨complete_start f signals _ _, replayed_start f signals _ _⟩ nodes places run
  obtain ⟨r, iterations, converged, tally⟩ := ends.rounds
  rw [ends.updateCounts] at tally
  have first := first_of_tally tally (Config.maxIterations_pos valid) exhausted.quiet
  rw [converged, iterations] at first
  refine ⟨first.1, first.2, ?_⟩
  intro v inside cutoff ranked left
  obtain ⟨l, found⟩ := exists_list exhausted.complete.sound.size inside
  have complete := exhausted.complete
  rw [capacity] at complete
  have scores := scores_of_allOffered complete exhausted.all inside found
  rw [neighbors_of_ends ends found]
  exact scores_cut scores

/-- Three nodes with places for more neighbors than there are. -/
def roomyNodes : Search :=
  { threeNodes (.ofFunction closeness) with
    config := { topK := 5, maxIterations := 2, similarityCutoff := 0.5, randomJoins := 1 } }

theorem run_exhaustive_of_three :
    ∃ o d, roomyNodes.run 7 {} 0 = (.ok o, d) ∧ o.converged = true ∧ o.iterations = 1
      ∧ (o.neighbors 0).map (fun x => (x.id, x.similarity))
        = ((ranking (closeness 0) [1, 2]).filter fun p => !decide (p.similarity < 0.5)).map
            fun p => (p.node, p.similarity) := by
  have ok : (roomyNodes.run 7 {} 0).1.isOk = true := by decide +kernel
  obtain ⟨o, d, run⟩ := exists_of_isOk ok
  have symmetric (a b : Nat) : closeness a b = closeness b a := by
    rw [closeness, closeness, Nat.add_comm]
  obtain ⟨converged, iterations, lists⟩ :=
    run_exhaustive rfl symmetric (by decide) (by decide) run
  have some : (0.0 : Float) < 0.5 := by decide
  refine ⟨o, d, run, converged, iterations, (lists 0 (by decide)).trans ?_⟩
  rw [show roomyNodes.config.similarityCutoff = 0.5 from rfl, if_pos some]
  rfl

end Search

end NeighborGraph
