import NeighborGraph.Proofs.Descent.Lists
import NeighborGraph.Proofs.Random.Distinct
import NeighborGraph.Runs

/-!
# When all other nodes are candidates

A sampler that is asked for as many nodes as there are others draws all of them: equally likely ones
because a full sample leaves nothing out, a walk because it is filled up until nothing is missing
(`Sampler.draw_all`).  Every node lies in a range, so after the random candidates were compared,
every node was offered to every other one (`Search.seeds_all`).
-/

namespace NeighborGraph

open NeighborGraph.Action

/-! ### Full draws -/

namespace Sampler

/-- There are no more other nodes than one less than all; if there are as many, they are all. -/
theorem others_full {n node : Nat} (inside : node < n) {xs : List Nat} (distinct : xs.Nodup)
    (others : ∀ x ∈ xs, Other n node x) :
    xs.length ≤ n - 1 ∧ (n - 1 ≤ xs.length → ∀ u, Other n node u → u ∈ xs) := by
  have part : xs ⊆ (List.range n).erase node := by
    intro x member
    obtain ⟨small, other⟩ := others x member
    exact (List.mem_erase_of_ne other).mpr (List.mem_range.mpr small)
  have length : ((List.range n).erase node).length = n - 1 := by
    rw [List.length_erase_of_mem (List.mem_range.mpr inside), List.length_range]
  have subperm := distinct.subperm part
  refine ⟨length ▸ subperm.length_le, fun full u ⟨small, other⟩ => ?_⟩
  have perm := subperm.perm_of_length_le (length.symm ▸ full)
  exact perm.mem_iff.mpr ((List.mem_erase_of_ne other).mpr (List.mem_range.mpr small))

theorem drawUniform_all {n node amount : Nat} (inside : node < n) (enough : n - 1 ≤ amount) :
    (drawUniform n node amount).Yields fun xs => ∀ u, Other n node u → u ∈ xs := by
  refine yields_bind (Random.sample_distinct _ _) fun drawn sampled => yields_pure ?_
  rintro u ⟨small, other⟩
  have full : n - 1 ≤ min amount (n - 1) := by omega
  by_cases after : node < u
  · refine List.mem_map.mpr ⟨u - 1, sampled.all full (by omega), ?_⟩
    rw [if_pos (by omega)]
    omega
  · refine List.mem_map.mpr ⟨u, sampled.all full (by omega), ?_⟩
    rw [if_neg (by omega)]

theorem nodup_visit {nodeCount node next : Nat} {found : List Nat} (distinct : found.Nodup) :
    (visit nodeCount node next found).Nodup := by
  rw [visit]
  split
  · next fresh =>
    have absent : next ∉ found := by
      have free := fresh.2.2
      rw [Bool.not_eq_true', ← Bool.not_eq_true, List.contains_iff_mem] at free
      exact free
    exact (List.perm_append_singleton next found).nodup_iff.mpr
      (List.nodup_cons.mpr ⟨absent, distinct⟩)
  · exact distinct

/-- A walk finds no node twice. -/
theorem walk_distinct (g : CompressedGraph) {node amount : Nat} (steps : Nat) {current : Nat}
    {found : List Nat} (distinct : found.Nodup) :
    (walk g node amount steps current found).Yields List.Nodup := by
  induction steps generalizing current found with
  | zero => exact yields_pure distinct
  | succ steps ih =>
    rw [walk]
    refine ensures_ite (fun _ => yields_pure distinct) fun _ => ?_
    refine yields_bind (yields_any _) fun back _ => ?_
    refine ensures_ite (fun _ => ?_) fun _ => ?_
    · exact ensures_ite (fun _ => yields_pure distinct) fun _ => ih distinct
    · refine yields_bind (yields_any _) fun index _ => ?_
      refine yields_bind (yields_any _) fun next _ => ?_
      cases next with
      | none => exact yields_pure distinct
      | some next => exact ih (nodup_visit distinct)

theorem drawByWalk_all (g : CompressedGraph) {node amount : Nat} (inside : node < g.size)
    (enough : g.size - 1 ≤ amount) :
    (drawByWalk g node amount).Yields fun xs => ∀ u, Other g.size node u → u ∈ xs := by
  have none : ∀ x ∈ ([] : List Nat), Other g.size node x :=
    fun x member => absurd member List.not_mem_nil
  refine yields_bind (Yields.and (walk_yields g _ none) (walk_distinct g _ .nil)) ?_
  intro found ⟨others, distinct⟩
  refine ensures_ite (fun _ => ?_) fun many => yields_pure ?_
  · refine yields_bind (Yields.and (drawUniform_yields g.size node amount)
      (drawUniform_all inside enough)) ?_
    refine fun more ⟨others', all⟩ => yields_pure fun u other => ?_
    have fit : (found ++ more).eraseDups.length ≤ amount := by
      refine Nat.le_trans (others_full inside (nodup_eraseDups _) fun x member => ?_).1 enough
      rcases List.mem_append.mp (List.mem_eraseDups.mp member) with walked | drawn
      · exact others x walked
      · exact others' x drawn
    rw [List.take_of_length_le fit]
    exact List.mem_eraseDups.mpr (List.mem_append_right _ (all u other))
  · exact (others_full inside distinct others).2 (Nat.le_trans enough (Nat.not_lt.mp many))

/-- A sampler that is asked for enough nodes draws all others. -/
theorem draw_all (sampler : Sampler) (g : CompressedGraph) {node amount : Nat}
    (inside : node < g.size) (enough : g.size - 1 ≤ amount) :
    (sampler.draw g node amount).Yields fun xs => ∀ u, Other g.size node u → u ∈ xs := by
  cases sampler with
  | uniform => exact drawUniform_all inside enough
  | randomWalk => exact drawByWalk_all g inside enough

end Sampler

/-! ### One task among others -/

theorem exists_mem_zip {α β : Type} {as : List α} {bs : List β} (length : bs.length = as.length)
    {a : α} (member : a ∈ as) : ∃ b, (a, b) ∈ as.zip bs := by
  obtain ⟨i, inside, rfl⟩ := List.mem_iff_getElem.mp member
  refine ⟨bs[i], List.mem_iff_getElem.mpr ⟨i, ?_, List.getElem_zip⟩⟩
  rw [List.length_zip]
  omega

namespace Descent

variable {P Q : Standing → Prop}

/-- What the task of one range brings about, and no task takes back, holds in the end. -/
theorem ensures_overTiles_mem {tiles : List NodeRange} {signal : Nat}
    {task : Nat → NodeRange → Action Descent Unit} {p : NodeRange} (member : p ∈ tiles)
    (each : ∀ signal, ∀ q ∈ tiles, Keeps P (task signal q))
    (there : ∀ signal,
      (task signal p).Ensures (fun d => P d.standing) fun _ d => Q d.standing)
    (stays : ∀ signal, ∀ q ∈ tiles, Keeps Q (task signal q)) :
    (overTiles tiles signal task).Ensures (fun d => P d.standing) fun _ d => Q d.standing := by
  refine ensures_bind (Tasks.ensures_child (ignoresSignals P) signal) fun below => ?_
  have drawn : Keeps P (collect tiles fun _ => drawSeed) := ensures_collect fun _ _ => keeps_drawSeed
  refine ensures_bind (drawn.and_yields (yields_collect tiles fun _ => drawSeed)) fun seeds => ?_
  refine ensures_of_fact fun length => ?_
  obtain ⟨seed, paired⟩ := exists_mem_zip length member
  refine ensures_discard (Tasks.ensures_run_mem (List.mem_map_of_mem paired) ?_ ?_ ?_)
  · intro task' member
    obtain ⟨⟨q, seed⟩, paired, rfl⟩ := List.mem_map.mp member
    exact ensures_bind (keeps_reseed seed) fun _ => each below q (List.of_mem_zip paired).1
  · exact ensures_bind (keeps_reseed seed) fun _ => there below
  · intro task' member
    obtain ⟨⟨q, seed⟩, paired, rfl⟩ := List.mem_map.mp member
    exact ensures_bind (keeps_reseed seed) fun _ => stays below q (List.of_mem_zip paired).1

end Descent

/-! ### Random candidates of all nodes -/

/-- No step takes an offer back. -/
theorem Lasting.withOffer {comparison : Comparison} {n : Nat} {P : Standing → Prop}
    (lasts : Lasting comparison n P) (v u : Nat) :
    Lasting comparison n fun t => P t ∧ u ∈ offered v t.encounters := by
  refine ⟨fun t kept => lasts.sized t kept.1, ?_⟩
  intro t t' kept step
  refine ⟨lasts.step t t' kept.1 step, ?_⟩
  cases step with
  | passed e => exact mem_offered_cons.mpr (.inr kept.2)
  | met e => exact mem_offered_cons.mpr (.inr kept.2)
  | picked => exact kept.2

namespace Descent

variable {P : Standing → Prop} {comparison : Comparison} {n : Nat}

/-- A node that is compared with a candidate is offered it. -/
theorem offers_seedWith (v u : Nat) :
    (seedWith comparison v u).Ensures (fun d => P d.standing)
      fun _ d => u ∈ offered v d.standing.encounters := by
  refine ensures_of_standing fun t _ => ?_
  have there : u ∈ offered v (.drawn v u :: t.encounters) :=
    mem_offered_cons.mpr (.inl (List.mem_singleton.mpr rfl))
  refine ensures_bind (R := fun _ d => d.standing = t)
    (keeps_update (P := (· = t)) fun _ => rfl) fun _ => ?_
  refine ensures_bind (ensures_remember (.drawn v u) t) fun _ => ?_
  refine ensures_bind (ensures_compare comparison v u _) fun answer => ?_
  refine ensures_of_fact fun _ => ?_
  cases answer with
  | none =>
    refine ensures_pure fun d stands => ?_
    rw [stands]
    exact there
  | some similarity =>
    refine (ensures_discard_offer v u similarity _).mono (fun _ stands => stands) ?_
    intro _ d ⟨stands, _⟩
    rw [stands]
    exact there

theorem offers_seedLists (lasts : Lasting comparison n P) (sampler : Sampler) {g : CompressedGraph}
    (size : g.size = n) {amount : Nat} (enough : n - 1 ≤ amount) (signal : Nat) {p : NodeRange}
    {v u : Nat} (member : v ∈ p.nodes) (inside : v < n) (other : Sampler.Other n v u) :
    (seedLists sampler g comparison amount signal p).Ensures (fun d => P d.standing)
      fun _ d => P d.standing ∧ u ∈ offered v d.standing.encounters := by
  subst size
  have lasts' := lasts.withOffer v u
  refine ensures_bind (R := fun _ d => P d.standing ∧ u ∈ offered v d.standing.encounters)
    (ensures_forEach_mem member ?_ ?_ ?_)
    fun _ => keeps_report (P := fun t => P t ∧ u ∈ offered v t.encounters) _
  · exact fun node _ => ensures_bind (Tasks.ensures_poll signal _) fun _ =>
      keeps_seedNode lasts sampler rfl amount node
  · refine ensures_bind (Tasks.ensures_poll signal _) fun _ => ?_
    refine ensures_bind (ensures_draw (P := P) (Yields.and
      (Sampler.draw_yields sampler g v amount) (Sampler.draw_all sampler g inside enough)))
      fun candidates => ?_
    refine ensures_of_fact fun ⟨others, all⟩ => ?_
    refine ensures_bind (keeps_requireList v) fun _ => ?_
    refine ensures_forEach_mem (all u other) ?_ ?_ ?_
    · exact fun candidate member => keeps_seedWith lasts (others candidate member)
    · exact (keeps_seedWith lasts other).and (offers_seedWith v u) |>.mono
        (fun _ kept => ⟨kept, kept⟩) fun _ _ known => known
    · exact fun candidate member => keeps_seedWith lasts' (others candidate member)
  · exact fun node _ => ensures_bind (Tasks.ensures_poll signal _) fun _ =>
      keeps_seedNode lasts' sampler rfl amount node

end Descent

/-- Every one of `n` nodes was offered to every other one. -/
def AllOffered (n : Nat) (t : Standing) : Prop :=
  ∀ v < n, ∀ u < n, u ≠ v → u ∈ offered v t.encounters

namespace Search

open Descent

variable {s : Search} {P : Standing → Prop}

/-- When all other nodes fit in a list, they are its random candidates. -/
theorem seeds_all (lasts : Lasting s.comparison s.nodeCount P)
    (fit : s.nodeCount - 1 ≤ s.config.topK.toNat) (signal : Nat) :
    (s.seedAll signal).Ensures (fun d => P d.standing)
      fun _ d => P d.standing ∧ AllOffered s.nodeCount d.standing := by
  have enough : s.nodeCount - 1 ≤ s.config.listCapacity s.nodeCount := by
    rw [Config.listCapacity]
    omega
  have one {v u : Nat} (inside : v < s.nodeCount) (small : u < s.nodeCount) (other : u ≠ v) :
      (s.seedAll signal).Ensures (fun d => P d.standing)
        fun _ d => P d.standing ∧ u ∈ offered v d.standing.encounters := by
    obtain ⟨p, tile, member⟩ : ∃ p ∈ s.tiles, v ∈ p.nodes :=
      NodeRange.exists_mem_tiles s.config.concurrency.toNat s.config.minBatchSize.toNat inside
    refine ensures_phase (Q := fun _ t => P t ∧ u ∈ offered v t.encounters)
      (ensures_overTiles_mem (Q := fun t => P t ∧ u ∈ offered v t.encounters)
        tile ?_ ?_ ?_)
    · exact fun signal q _ => keeps_seedLists lasts _ rfl _ signal q
    · exact fun signal => offers_seedLists lasts _ rfl enough signal member inside ⟨small, other⟩
    · exact fun signal q _ => keeps_seedLists (lasts.withOffer v u) _ rfl _ signal q
  intro d a d' kept run
  refine ⟨keeps_seedAll lasts signal d a d' kept run, ?_⟩
  intro v inside u small other
  exact (one inside small other d a d' kept run).2

end Search

end NeighborGraph
