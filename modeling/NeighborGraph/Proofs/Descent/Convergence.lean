import Mathlib.Algebra.GroupWithZero.Nat
import NeighborGraph.Proofs.Descent.Result
import NeighborGraph.Proofs.Descent.Updates

/-!
# Descents converge

A run compares by a symmetric function.  Every update of an iteration is an offer that a list
accepted, no list accepts a node twice, and a list accepts other nodes only.  So there are at most
`n * (n - 1)` updates in all iterations together, and an iteration after which the run goes on has at
least one of them: a run that may take more iterations than that converges.
-/

namespace NeighborGraph

open NeighborGraph.Action NeighborList

theorem NeighborList.unmarked_filter (l : NeighborList) (cutoff : Float) :
    (l.filter cutoff).unmarked = l.unmarked.filter cutoff := by
  rw [unmarked, unmarked, filter, filter]
  congr 1
  rw [List.filter_map]
  rfl

namespace Search

open Descent

variable {s : Search} {o : Outcome} {d : Descent} {f : Nat → Nat → Option Float}

theorem scores_cut_unmarked (l : NeighborList) : (s.cut l.unmarked).scores = (s.cut l).scores := by
  rw [cut, cut]
  split
  · rw [← unmarked_filter, scores_unmarked]
  · rw [scores_unmarked]

/-- The updates that were noted are acceptances. -/
def Booked (f : Nat → Nat → Option Float) (n capacity : Nat) (t : Standing) : Prop :=
  Replayed f n capacity t
    ∧ t.updateCounts.sum ≤ acceptances f n capacity (offered · t.encounters)

section Rounds

variable (function : s.comparison = .ofFunction f) (symmetric : ∀ a b, f a b = f b a)
include function symmetric

/-- Between two notes nothing but steps is done. -/
theorem lasting_booked (capacity : Nat) (counts : List Nat) :
    Lasting s.comparison s.nodeCount fun t =>
      (Replayed f s.nodeCount capacity t
        ∧ counts.sum ≤ acceptances f s.nodeCount capacity (offered · t.encounters))
      ∧ t.updateCounts = counts := by
  rw [function]
  exact ((lasting_replayed symmetric _ capacity).withAcceptances f capacity _).withCounts counts

theorem round_booked (capacity signal : Nat) :
    s.Round signal (Booked f s.nodeCount capacity) := by
  intro counts
  refine (counts_iteration function symmetric (lasting_booked function symmetric capacity counts)
    (fun t kept => kept.1.1) (fun t kept => kept.1.2) signal).mono ?_ ?_
  · rintro d ⟨⟨replayed, enough⟩, same⟩
    rw [same] at enough
    exact ⟨⟨replayed, enough⟩, same⟩
  · rintro _ d ⟨⟨⟨replayed, -⟩, same⟩, counted⟩
    refine ⟨⟨⟨replayed.size, replayed.follows, replayed.inside⟩, ?_⟩, same⟩
    rw [List.sum_cons, Nat.add_comm]
    exact counted

theorem seeds_booked (capacity signal : Nat) :
    (s.seedAll signal).Ensures
      (fun d => Booked f s.nodeCount capacity d.standing ∧ d.standing.updateCounts = [])
      fun _ d => Booked f s.nodeCount capacity d.standing ∧ d.standing.updateCounts = [] := by
  refine (keeps_seedAll (lasting_booked function symmetric capacity []) signal).mono ?_ ?_
  · rintro d ⟨⟨replayed, enough⟩, same⟩
    rw [same] at enough
    exact ⟨⟨replayed, enough⟩, same⟩
  · rintro _ d ⟨⟨replayed, enough⟩, same⟩
    refine ⟨⟨replayed, ?_⟩, same⟩
    rw [same]
    exact enough

end Rounds

/-- Numbers above a limit are not more than their sum. -/
theorem length_le_sum {limit : Nat} {counts : List Nat} (above : ∀ c ∈ counts, limit < c) :
    counts.length ≤ counts.sum := by
  induction counts with
  | nil => exact Nat.le_refl 0
  | cons c rest ih =>
    have first := above c List.mem_cons_self
    have others := ih fun c member => above c (List.mem_cons_of_mem _ member)
    rw [List.length_cons, List.sum_cons]
    omega

/-- With at most `bound` updates and more iterations to take than that, the last iteration taken was
a quiet one. -/
theorem converged_of_tally {limit most bound : Nat} {counts : List Nat} {r : Rounds}
    (tally : r.Tally limit most counts) (few : counts.sum ≤ bound) (room : bound < most) :
    r.converged = true ∧ r.iterations ≤ bound + 1 := by
  cases converged : r.converged with
  | false =>
    obtain ⟨all, loud⟩ := tally.loud converged
    have length := length_le_sum loud
    rw [← tally.iterations, all] at length
    omega
  | true =>
    obtain ⟨last, before, rfl, -⟩ := tally.quiet converged
    have length := length_le_sum tally.earlier
    rw [List.tail_cons] at length
    rw [List.sum_cons] at few
    rw [tally.iterations, List.length_cons]
    exact ⟨rfl, by omega⟩

/-- Over a whole run a list accepts a node once at the most; what it ends with is what its offers
lead to.  The updates of all iterations are acceptances, so there are at most as many as pairs of
different nodes, at most so many iterations are not quiet, and a run that may take more than that
converges. -/
theorem run_converges (function : s.comparison = .ofFunction f) (symmetric : ∀ a b, f a b = f b a)
    {entropy : UInt64} {signals : Signals} {signal : Nat} (nodes : 2 ≤ s.nodeCount)
    (places : s.config.topK ≠ 0) (run : s.run entropy signals signal = (.ok o, d)) :
    let n := s.nodeCount
    let capacity := min s.config.topK.toNat (n - 1)
    (∀ v < n,
        let taken := accepted (f v) v capacity (offered v d.encounters)
        taken.Nodup ∧ (∀ u ∈ taken, u < n ∧ u ≠ v)
          ∧ (o.neighbors v).map (fun x => (x.id, x.similarity))
            = (s.cut (replay (f v) v capacity (offered v d.encounters))).scores)
      ∧ d.updateCounts.length = o.iterations
      ∧ d.updateCounts.sum ≤ acceptances f n capacity (offered · d.encounters)
      ∧ d.updateCounts.sum ≤ n * (n - 1)
      ∧ (d.updateCounts.filter (s.config.quietLimit n < ·)).length ≤ n * (n - 1)
      ∧ (n * (n - 1) < s.config.maxIterations.toNat →
          o.converged = true ∧ o.iterations ≤ n * (n - 1) + 1) := by
  intro n capacity
  obtain ⟨-, t, ⟨replayed, booked⟩, ends⟩ := of_rounds (fun t kept => kept.1.size)
    (seeds_booked function symmetric (s.config.listCapacity n) signal)
    (round_booked function symmetric (s.config.listCapacity n) signal)
    ⟨replayed_start f signals n _, Nat.zero_le _⟩ nodes places run
  obtain ⟨r, iterations, converged, tally⟩ := ends.rounds
  rw [← ends.updateCounts] at booked
  have few : d.updateCounts.sum ≤ n * (n - 1) :=
    Nat.le_trans booked (acceptances_le replayed.inside)
  refine ⟨?_, ?_, ends.encounters ▸ booked, few, ?_, ?_⟩
  · intro v inside
    rw [ends.encounters]
    refine ⟨nodup_accepted _, fun u member => ?_, ?_⟩
    · exact ⟨replayed.inside v u member, (mem_accepted member).2⟩
    · obtain ⟨l, found⟩ := exists_list replayed.size inside
      have follows : l.unmarked = replay (f v) v capacity (offered v t.encounters) :=
        replayed.follows v l found
      rw [neighbors_of_ends ends found, ← follows, scores_cut_unmarked]
      rfl
  · rw [← iterations]
    exact tally.iterations.symm
  · have above : ∀ c ∈ d.updateCounts.filter (s.config.quietLimit n < ·),
        s.config.quietLimit n < c := fun c member =>
      of_decide_eq_true (List.mem_filter.mp member).2
    refine Nat.le_trans (length_le_sum above) (Nat.le_trans ?_ few)
    exact (List.filter_sublist).sum_le_sum fun _ _ => Nat.zero_le _
  · intro room
    rw [← iterations, ← converged]
    exact converged_of_tally tally few room

/-- Three nodes, and one iteration more than there are pairs of them. -/
def patientNodes : Search :=
  { threeNodes (.ofFunction closeness) with
    config := { topK := 1, maxIterations := 7, similarityCutoff := 0.5, randomJoins := 1 } }

theorem run_converges_of_three :
    ∃ o d, patientNodes.run 7 {} 0 = (.ok o, d)
      ∧ d.updateCounts.sum ≤ 6 ∧ o.converged = true ∧ o.iterations ≤ 7 := by
  have ok : (patientNodes.run 7 {} 0).1.isOk = true := by decide +kernel
  obtain ⟨o, d, run⟩ := exists_of_isOk ok
  have symmetric (a b : Nat) : closeness a b = closeness b a := by
    rw [closeness, closeness, Nat.add_comm]
  obtain ⟨-, -, -, few, -, converges⟩ :=
    run_converges rfl symmetric (by decide) (by decide) run
  obtain ⟨converged, iterations⟩ := converges (by decide)
  exact ⟨o, d, run, few, converged, iterations⟩

end Search

end NeighborGraph
