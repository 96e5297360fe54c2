import NeighborGraph.Descent.Candidates
import NeighborGraph.Descent.Sampling
import NeighborGraph.Proofs.Descent.Steps
import NeighborGraph.Proofs.Random

/-!
# The phases of a descent keep what steps keep

Every phase is put together from steps.  What is left to see is that the steps are well-formed: the
nodes that meet are different and have a list.  A node that owns a list that was found has one; the
other node comes from a sampler, a random number or a list of candidates, and each of them has its
own reason not to leave the range (`Sampler.draw_yields`, `Descent.keeps_joinRandom`,
`Descent.keeps_joinPair`).
-/

namespace NeighborGraph

open NeighborGraph.Action

/-! ### Random candidates -/

namespace Sampler

/-- A node of the graph other than a given one. -/
def Other (nodeCount node x : Nat) : Prop := x < nodeCount ∧ x ≠ node

/-- The numbers below `nodeCount - 1` stand for the nodes other than a given one. -/
theorem other_of_lt {nodeCount drawn : Nat} (node : Nat) (below : drawn < nodeCount - 1) :
    Other nodeCount node (if node ≤ drawn then drawn + 1 else drawn) := by
  by_cases after : node ≤ drawn
  · rw [if_pos after]
    exact ⟨by omega, by omega⟩
  · rw [if_neg after]
    exact ⟨by omega, by omega⟩

theorem drawUniform_yields (nodeCount node amount : Nat) :
    (drawUniform nodeCount node amount).Yields fun xs => ∀ x ∈ xs, Other nodeCount node x := by
  refine yields_bind (Random.sample_yields _ _) fun drawn small => ?_
  refine yields_pure ?_
  intro x member
  obtain ⟨y, inside, rfl⟩ := List.mem_map.mp member
  exact other_of_lt node (small y inside)

theorem visit_others {nodeCount node next : Nat} {found : List Nat}
    (others : ∀ x ∈ found, Other nodeCount node x) :
    ∀ x ∈ visit nodeCount node next found, Other nodeCount node x := by
  intro x member
  rw [visit] at member
  split at member
  · next fresh =>
    rcases List.mem_append.mp member with before | last
    · exact others x before
    · rw [List.mem_singleton.mp last]
      exact ⟨fresh.2.1, fresh.1⟩
  · exact others x member

/-- A walk may come by any node, but it finds only nodes of the graph other than its start. -/
theorem walk_yields (g : CompressedGraph) {node amount : Nat} (steps : Nat) {current : Nat}
    {found : List Nat} (others : ∀ x ∈ found, Other g.size node x) :
    (walk g node amount steps current found).Yields fun xs => ∀ x ∈ xs, Other g.size node x := by
  induction steps generalizing current found with
  | zero => exact yields_pure others
  | succ steps ih =>
    rw [walk]
    refine ensures_ite (fun _ => yields_pure others) fun _ => ?_
    refine yields_bind (yields_any _) fun back _ => ?_
    refine ensures_ite (fun _ => ?_) fun _ => ?_
    · exact ensures_ite (fun _ => yields_pure others) fun _ => ih others
    · refine yields_bind (yields_any _) fun index _ => ?_
      refine yields_bind (yields_any _) fun next _ => ?_
      cases next with
      | none => exact yields_pure others
      | some next => exact ih (visit_others others)

theorem drawByWalk_yields (g : CompressedGraph) (node amount : Nat) :
    (drawByWalk g node amount).Yields fun xs => ∀ x ∈ xs, Other g.size node x := by
  refine yields_bind (walk_yields g _ fun x none => absurd none List.not_mem_nil) ?_
  intro found others
  refine ensures_ite (fun _ => ?_) fun _ => yields_pure others
  refine yields_bind (drawUniform_yields g.size node amount) fun more others' => yields_pure ?_
  intro x member
  rcases List.mem_append.mp (List.mem_eraseDups.mp (List.mem_of_mem_take member)) with walked | drawn
  · exact others x walked
  · exact others' x drawn

/-- A sampler draws nodes of the graph other than the given one. -/
theorem draw_yields (sampler : Sampler) (g : CompressedGraph) (node amount : Nat) :
    (sampler.draw g node amount).Yields fun xs => ∀ x ∈ xs, Other g.size node x := by
  cases sampler with
  | uniform => exact drawUniform_yields g.size node amount
  | randomWalk => exact drawByWalk_yields g node amount

end Sampler

namespace Descent

variable {P : Standing → Prop} {comparison : Comparison} {n : Nat}

theorem keeps_seedWith (lasts : Lasting comparison n P) {node candidate : Nat}
    (other : Sampler.Other n node candidate) : Keeps P (seedWith comparison node candidate) := by
  refine ensures_of_standing fun t kept => ?_
  have sized := lasts.sized t kept
  refine ensures_bind (R := fun _ d => d.standing = t)
    (keeps_update (P := (· = t)) fun _ => rfl) fun _ => ?_
  refine ensures_bind (ensures_remember (.drawn node candidate) t) fun _ => ?_
  refine ensures_bind (ensures_compare comparison node candidate _) fun answer => ?_
  refine ensures_of_fact fun answered => ?_
  cases answer with
  | none =>
    refine ensures_of_leads (ensures_pure fun _ stands => stands) ?_
    exact lasts.after_passed kept (.drawn node candidate) answered
  | some similarity =>
    refine (ensures_discard_offer node candidate similarity _).mono (fun _ stands => stands) ?_
    intro _ d ⟨stands, inside⟩
    rw [stands]
    exact lasts.after_met kept (.drawn node candidate) answered other.2.symm inside
      (sized ▸ other.1)

theorem keeps_requireList (node : Nat) : Keeps P (requireList node) := by
  intro d a d' start run
  rw [requireList] at run
  split at run
  · cases run
    exact start
  · cases run

/-- All candidates of one node. -/
theorem keeps_seedNode (lasts : Lasting comparison n P) (sampler : Sampler) {g : CompressedGraph}
    (size : g.size = n) (amount node : Nat) :
    Keeps P (draw (sampler.draw g node amount) >>= fun candidates =>
      requireList node >>= fun _ => forEach candidates (seedWith comparison node)) := by
  refine ensures_bind (ensures_draw (Sampler.draw_yields sampler g node amount)) fun candidates => ?_
  refine ensures_of_fact fun others => ?_
  refine ensures_bind (keeps_requireList node) fun _ => ensures_forEach fun candidate member => ?_
  exact keeps_seedWith lasts (size ▸ others candidate member)

theorem keeps_seedLists (lasts : Lasting comparison n P) (sampler : Sampler) {g : CompressedGraph}
    (size : g.size = n) (amount signal : Nat) (p : NodeRange) :
    Keeps P (seedLists sampler g comparison amount signal p) :=
  keeps_overNodes fun node _ => keeps_seedNode lasts sampler size amount node

/-! ### Candidates of an iteration -/

end Descent

/-- Splitting a list marks the new neighbors it picks. -/
theorem NeighborList.split_yields (l : NeighborList) (sampleSize : Nat) :
    (l.split sampleSize).Yields fun parts => parts.list = l.check parts.new :=
  yields_bind (yields_any _) fun _ _ => yields_pure rfl

namespace Descent

variable {P : Standing → Prop} {comparison : Comparison} {n : Nat}

theorem keeps_splitList (lasts : Lasting comparison n P) (sampleSize : Nat) (share : Share)
    (node : Nat) : Keeps P (splitList sampleSize share node) := by
  refine ensures_of_standing fun t kept => ?_
  refine ensures_bind (R := fun found d => d.standing = t ∧ t.lists[node]? = found) ?_ ?_
  · refine ensures_read fun d stands => ⟨stands, ?_⟩
    rw [← stands]
    rfl
  · intro found
    refine ensures_of_fact fun here => ?_
    cases found with
    | none => exact ensures_bind (keeps_read (P := (· = t)) _) fun _ => ensures_fail
    | some list =>
      refine ensures_bind (keeps_read (P := (· = t)) _) fun places => ?_
      refine ensures_bind (keeps_check (P := (· = t)) places) fun places => ?_
      refine ensures_bind (ensures_draw (P := (· = t)) (list.split_yields sampleSize)) ?_
      intro parts
      refine ensures_of_fact fun split => ensures_update fun d stands => ?_
      have lists : d.lists = t.lists := by
        rw [← stands]
        rfl
      have same : (keepParts node places parts d).standing
          = { t with lists := t.lists.modify node (·.check parts.new) } := by
        rw [← setIfInBounds_eq_modify here, ← split, ← lists, ← stands]
        rfl
      rw [same]
      exact lasts.step t _ kept (.picked node parts.new)

/-- An action on a map that is taken out and put back. -/
theorem overMap_eq {take : Descent → NodeMap × Descent} {put : NodeMap → Descent → Descent}
    {d : Descent} {m : Action NodeMap Unit} {map map' : NodeMap} {r : Checked Unit} (taken : (take d).1 = map)
    (run : m map = (r, map')) : overMap take put m d = (r, put map' (take d).2) := by
  subst taken
  rw [overMap]
  simp only [run]

theorem keeps_overMap {take : Descent → NodeMap × Descent} {put : NodeMap → Descent → Descent}
    (same : ∀ map d, (put map (take d).2).standing = d.standing) (m : Action NodeMap Unit) :
    Keeps P (overMap take put m) := by
  intro d a d' start run
  rw [overMap] at run
  have after : d' = put (m (take d).1).2 (take d).2 := (Prod.ext_iff.mp run).2.symm
  rw [after, same]
  exact start

/-- The lists have no part in the reverse candidates. -/
theorem keeps_reverseNode (node : Nat) : Keeps P (reverseNode node) := by
  refine ensures_bind (keeps_read _) fun old => ?_
  refine ensures_bind (keeps_check old) fun old => ?_
  refine ensures_bind (keeps_overMap (fun _ _ => rfl) _) fun _ => ?_
  refine ensures_bind (keeps_read _) fun new => ?_
  refine ensures_bind (keeps_check new) fun new => ?_
  exact keeps_overMap (fun _ _ => rfl) _

theorem keeps_reverseMaps (nodeCount batch signal : Nat) :
    Keeps P (reverseMaps nodeCount batch signal) := by
  refine ensures_forEach fun node _ => ?_
  refine ensures_bind (Tasks.ensures_poll signal node) fun _ => ?_
  refine ensures_bind (keeps_reverseNode node) fun _ => ?_
  exact ensures_ite (fun _ => keeps_report _) fun _ => keeps_pure _

/-! ### Joins -/

theorem ensures_offerCounted (owner candidate : Nat) (similarity : Float) (t : Standing) :
    (offerCounted owner candidate similarity).Ensures (fun d => d.standing = t) fun _ d =>
      d.standing = { t with lists := tell similarity t.lists (owner, candidate) }
        ∧ owner < t.lists.size := by
  refine ensures_bind (ensures_offer owner candidate similarity t) fun changed => ?_
  refine ensures_ite (fun _ => ?_) fun _ => ensures_pure fun _ known => known
  exact ensures_update fun _ known => known

/-- Both candidates have a list, because both are offered to. -/
theorem keeps_joinPair {rule : JoinRule} (lasts : Lasting rule.comparison n P) (a b : Nat) :
    Keeps P (joinPair rule a b) := by
  refine ensures_ite (fun _ => keeps_pure _) fun different => ensures_of_standing fun t kept => ?_
  refine ensures_bind (keeps_update (P := (· = t)) fun _ => rfl) fun _ => ?_
  refine ensures_bind (ensures_remember (.joined a b) t) fun _ => ?_
  refine ensures_bind (ensures_compare rule.comparison a b _) fun answer => ?_
  refine ensures_of_fact fun answered => ?_
  cases answer with
  | none =>
    refine ensures_of_leads (ensures_pure fun _ stands => stands) ?_
    exact lasts.after_passed kept (.joined a b) answered
  | some similarity =>
    refine ensures_bind (ensures_offerCounted a b similarity _) fun _ => ?_
    refine ensures_of_fact fun first => ?_
    refine (ensures_offerCounted b a similarity _).mono (fun _ stands => stands) ?_
    intro _ d ⟨stands, second⟩
    have size : (tell similarity t.lists (a, b)).size = t.lists.size := Array.size_modify
    rw [stands]
    exact lasts.after_met kept (.joined a b) answered different first (size ▸ second)

theorem keeps_perturbs (rate : Float) : Keeps P (perturbs rate) :=
  ensures_ite (fun _ => keeps_draw _) fun _ => keeps_pure _

/-- A random node is drawn from as many numbers as there are other nodes. -/
theorem keeps_joinRandom {rule : JoinRule} (lasts : Lasting rule.comparison n P) (node : Nat) :
    Keeps P (joinRandom rule node) := by
  refine ensures_of_standing fun t kept => ?_
  refine ensures_bind (R := fun count d => d.standing = t ∧ count = t.lists.size) ?_ ?_
  · refine ensures_read fun d stands => ⟨stands, ?_⟩
    rw [← stands]
    rfl
  intro count
  refine ensures_of_fact fun size => ?_
  refine ensures_bind (ensures_draw (P := (· = t)) (Random.below64_yields _)) fun drawn => ?_
  refine ensures_of_fact fun below => ?_
  rw [size] at below
  let other := if node ≤ drawn then drawn + 1 else drawn
  obtain ⟨inRange, different⟩ : Sampler.Other t.lists.size node other :=
    Sampler.other_of_lt node below
  refine ensures_bind (keeps_update (P := (· = t)) fun _ => rfl) fun _ => ?_
  refine ensures_bind (ensures_compare rule.comparison node other t) fun answer => ?_
  refine ensures_of_fact fun answered => ?_
  cases answer with
  | none =>
    refine ensures_of_leads (ensures_remember (.random node other false) _) ?_
    exact lasts.after_passed kept (.random node other false) answered
  | some similarity =>
    refine ensures_bind (ensures_discard_offer node other similarity _) fun _ => ?_
    refine ensures_of_fact fun inside => ?_
    refine ensures_bind (keeps_perturbs (P := (· = _)) rule.perturbationRate) fun heard => ?_
    refine ensures_bind (ensures_remember (.random node other heard) _) fun _ => ?_
    -- one step in either case: what is told depends on whether the other node hears of it
    have met := lasts.after_met kept (.random node other heard) answered different.symm inside
      inRange
    cases heard with
    | false => exact ensures_of_leads (ensures_pure fun _ stands => stands) met
    | true =>
      refine (ensures_discard_offer other node similarity _).mono (fun _ stands => stands) ?_
      intro _ d ⟨stands, _⟩
      rw [stands]
      exact met

theorem keeps_gather (sampleSize node : Nat) : Keeps P (gather sampleSize node) := by
  refine ensures_bind (keeps_read _) fun new => ?_
  refine ensures_bind (keeps_read _) fun reverseNew => ?_
  refine ensures_bind (keeps_check new) fun new => ?_
  refine ensures_bind (keeps_check reverseNew) fun reverseNew => ?_
  refine ensures_bind (keeps_draw _) fun new => ?_
  refine ensures_bind (keeps_read _) fun old => ?_
  refine ensures_bind (keeps_read _) fun reverseOld => ?_
  refine ensures_bind (keeps_check old) fun old => ?_
  refine ensures_bind (keeps_check reverseOld) fun reverseOld => ?_
  refine ensures_bind (keeps_draw _) fun old => ?_
  exact keeps_pure _

theorem keeps_joinNode {rule : JoinRule} (lasts : Lasting rule.comparison n P) (node : Nat) :
    Keeps P (joinNode rule node) := by
  refine ensures_bind (keeps_gather rule.sampleSize node) fun candidates => ?_
  refine ensures_bind (ensures_forEach fun pair _ => keeps_joinPair lasts pair.1 pair.2) fun _ => ?_
  exact ensures_repeatTimes (keeps_joinRandom lasts node) rule.randomJoins

end Descent

end NeighborGraph
