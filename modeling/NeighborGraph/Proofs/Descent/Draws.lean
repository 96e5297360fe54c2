import NeighborGraph.Proofs.Descent.Combine
import NeighborGraph.Proofs.Descent.Phases
import NeighborGraph.Proofs.Graph.Walkable
import NeighborGraph.Proofs.NeighborList.Split
import NeighborGraph.Proofs.Random.Total

/-!
# The draws of a descent

Everything a descent draws is drawn from something: candidates from the other nodes, picked neighbors
from a list (`NeighborList.split`), joined nodes from forward and reverse candidates
(`Descent.combine`).  None of these draws ever fails, and none yields anything else than it was given
(`Sampler.draw_total`, `Descent.mem_candidatePairs`).
-/

namespace NeighborGraph

open NeighborGraph.Action

/-! ### Random candidates -/

namespace Sampler

theorem drawUniform_total (nodeCount node amount : Nat) :
    (drawUniform nodeCount node amount).Total :=
  total_then (Random.sample_total (Nat.min_le_right amount _)) fun _ => total_pure _

theorem restarts_total (node current degree : Nat) : (restarts node current degree).Total := by
  rw [restarts]
  refine delivers_ite (fun _ => total_pure true) fun _ => ?_
  refine delivers_ite (fun _ => total_pure false) fun _ => ?_
  exact Random.coin_total (show (0.0 : Float) ≤ 0.25 by decide) (show (0.25 : Float) ≤ 1.0 by decide)

/-- Without relationships a walk goes back. -/
theorem restarts_yields (node current degree : Nat) :
    (restarts node current degree).Yields fun back => ¬back = true → 0 < degree := by
  rw [restarts]
  refine ensures_ite (fun _ => yields_pure fun onward => absurd rfl onward) fun some => ?_
  exact (yields_any _).mono (fun _ start => start) fun _ _ _ _ => Nat.pos_of_ne_zero some

/-- A walk along a walkable graph never leaves it. -/
theorem walk_total {g : CompressedGraph} (walkable : g.Walkable) {node : Nat}
    (inside : node < g.size) (amount steps : Nat) {current : Nat} (here : current < g.size)
    (found : List Nat) : (walk g node amount steps current found).Total := by
  induction steps generalizing current found with
  | zero => exact total_pure found
  | succ steps ih =>
    rw [walk]
    refine delivers_ite (fun _ => total_pure found) fun _ => ?_
    refine total_bind (restarts_total _ _ _) (restarts_yields _ _ _) fun back left => ?_
    refine delivers_ite (fun _ => ?_) fun onward => ?_
    · exact delivers_ite (fun _ => total_pure found) fun _ => ih inside found
    · refine total_then (Random.below64_total (left onward)) fun index => ?_
      obtain ⟨answer, decoded, leads⟩ := walkable current here index
      rw [decoded]
      refine total_bind (delivers_check rfl fun _ _ => trivial)
        (ensures_check fun a passed _ _ => Except.ok.inj passed) fun next same => ?_
      subst same
      cases answer with
      | none => exact total_pure found
      | some next => exact ih (leads next rfl) _

theorem drawByWalk_total {g : CompressedGraph} (walkable : g.Walkable) {node : Nat}
    (inside : node < g.size) (amount : Nat) : (drawByWalk g node amount).Total := by
  refine total_then (walk_total walkable inside amount _ inside []) fun found => ?_
  refine delivers_ite (fun _ => ?_) fun _ => total_pure found
  exact total_then (drawUniform_total g.size node amount) fun others => total_pure _

theorem draw_total (sampler : Sampler) {g : CompressedGraph} (walkable : g.Walkable) {node : Nat}
    (inside : node < g.size) (amount : Nat) : (sampler.draw g node amount).Total := by
  cases sampler with
  | uniform => exact drawUniform_total g.size node amount
  | randomWalk => exact drawByWalk_total walkable inside amount

end Sampler

/-! ### Joined candidates -/

namespace Descent

/-- Both nodes of a pair are candidates. -/
theorem mem_candidatePairs {new old : List Nat} {pair : Nat × Nat}
    (member : pair ∈ candidatePairs new old) :
    pair.1 ∈ new ++ old ∧ pair.2 ∈ new ++ old := by
  induction new with
  | nil => exact absurd member List.not_mem_nil
  | cons a rest ih =>
    rw [candidatePairs, List.append_assoc] at member
    rcases List.mem_append.mp member with newer | member
    · obtain ⟨b, inside, rfl⟩ := List.mem_map.mp newer
      exact ⟨List.mem_cons_self, List.mem_cons_of_mem _ (List.mem_append_left _ inside)⟩
    · rcases List.mem_append.mp member with older | later
      · obtain ⟨b, inside, rfl⟩ := List.mem_map.mp older
        exact ⟨List.mem_cons_self, List.mem_cons_of_mem _ (List.mem_append_right _ inside)⟩
      · obtain ⟨first, second⟩ := ih later
        exact ⟨List.mem_cons_of_mem _ first, List.mem_cons_of_mem _ second⟩

end Descent

end NeighborGraph
