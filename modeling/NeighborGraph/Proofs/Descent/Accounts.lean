import Mathlib.Algebra.BigOperators.Ring.List
import Mathlib.Algebra.Ring.Nat
import NeighborGraph.Proofs.Descent.Range
import NeighborGraph.Proofs.Descent.Seeding
import NeighborGraph.Proofs.Descent.Untouched

/-!
# Every comparison is accounted for

A run that succeeds reports how many pairs it considered: random candidates are counted when they are
drawn, the pairs of an iteration by the tasks that join them.  Both counts are counts of comparisons,
however the nodes are divided into ranges, and the history tells the reasons apart: so many comparisons
for each node at the start, so many with random nodes in each iteration, and the rest are joined
candidates (`Search.run_comparisons`).

What is counted is a `meter` of the books, which every step either leaves alone or puts forward by a
fixed amount; `Descent.Charges` adds these amounts up over loops, ranges and tasks.
-/

namespace NeighborGraph

open NeighborGraph.Action

/-! ### How many candidates are drawn -/

namespace Sampler

theorem drawUniform_amount {n amount : Nat} (node : Nat) (fits : amount ≤ n - 1) :
    (drawUniform n node amount).Yields fun xs => xs.Nodup ∧ xs.length = amount := by
  refine yields_bind (Random.sample_distinct _ _) fun drawn sampled => yields_pure ⟨?_, ?_⟩
  · refine List.Nodup.map ?_ sampled.distinct
    intro x y same
    dsimp only at same
    split at same <;> split at same <;> omega
  · rw [List.length_map, sampled.complete, Nat.min_eq_left fits]

theorem length_visit {nodeCount node next amount : Nat} {found : List Nat}
    (room : found.length < amount) : (visit nodeCount node next found).length ≤ amount := by
  rw [visit]
  split
  · rw [List.length_append]
    exact room
  · exact Nat.le_of_lt room

/-- A walk ends when it has found enough. -/
theorem walk_length (g : CompressedGraph) {node amount : Nat} (steps : Nat) {current : Nat}
    {found : List Nat} (room : found.length ≤ amount) :
    (walk g node amount steps current found).Yields (·.length ≤ amount) := by
  induction steps generalizing current found with
  | zero => exact yields_pure room
  | succ steps ih =>
    rw [walk]
    refine ensures_ite (fun _ => yields_pure room) fun few => ?_
    refine yields_bind (yields_any _) fun back _ => ?_
    refine ensures_ite (fun _ => ?_) fun _ => ?_
    · exact ensures_ite (fun _ => yields_pure room) fun _ => ih room
    · refine yields_bind (yields_any _) fun index _ => ?_
      refine yields_bind (yields_any _) fun next _ => ?_
      cases next with
      | none => exact yields_pure room
      | some next => exact ih (length_visit (Nat.not_le.mp few))

/-- What a walk does not find is made up for by equally likely nodes. -/
theorem drawByWalk_amount (g : CompressedGraph) {node amount : Nat} (fits : amount ≤ g.size - 1) :
    (drawByWalk g node amount).Yields (·.length = amount) := by
  refine yields_bind (walk_length g _ (Nat.zero_le amount)) fun found most => ?_
  refine ensures_ite (fun _ => ?_) fun many => yields_pure (by omega)
  refine yields_bind (drawUniform_amount node fits) fun others ⟨distinct, length⟩ => yields_pure ?_
  have part : others ⊆ (found ++ others).eraseDups := fun u member =>
    List.mem_eraseDups.mpr (List.mem_append_right _ member)
  have enough : others.length ≤ (found ++ others).eraseDups.length :=
    (distinct.subperm part).length_le
  rw [List.length_take]
  omega

/-- A sampler draws as many nodes as it is asked for, unless there are fewer others. -/
theorem draw_amount (sampler : Sampler) (g : CompressedGraph) {node amount : Nat}
    (fits : amount ≤ g.size - 1) : (sampler.draw g node amount).Yields (·.length = amount) := by
  cases sampler with
  | uniform => exact (drawUniform_amount node fits).mono (fun _ start => start) fun _ _ known => known.2
  | randomWalk => exact drawByWalk_amount g fits

end Sampler

/-! ### Books -/

namespace Encounter

/-- Whether the second node is a random candidate of the first one. -/
def isDrawn : Encounter → Bool
  | drawn .. => true
  | _ => false

/-- Whether the second node is a random other one that the first one was joined with. -/
def isRandom : Encounter → Bool
  | random .. => true
  | _ => false

end Encounter

/-- All that is counted, and the history. -/
structure Books where
  calls : Nat
  evaluated : List (Nat × Nat)
  encounters : List Encounter
  found : Nat
  pairs : Nat

/-- The books after a comparison. -/
def Books.enter (b : Books) (e : Encounter) : Books :=
  { b with
    calls := b.calls + 1
    evaluated := e.nodes :: b.evaluated
    encounters := e :: b.encounters }

/-- There were `total` comparisons, all of them remembered, of which so many with random candidates
and so many with random nodes. -/
structure Considered (total drawn random : Nat) (b : Books) : Prop where
  calls : b.calls = total
  evaluated : b.evaluated = b.encounters.map Encounter.nodes
  total : b.encounters.length = total
  drawn : b.encounters.countP Encounter.isDrawn = drawn
  random : b.encounters.countP Encounter.isRandom = random

theorem Considered.enter {total drawn random : Nat} {b : Books} (h : Considered total drawn random b)
    (e : Encounter) : Considered (total + 1) (drawn + if e.isDrawn then 1 else 0)
      (random + if e.isRandom then 1 else 0) (b.enter e) := by
  refine ⟨congrArg (· + 1) h.calls, congrArg (e.nodes :: ·) h.evaluated,
    congrArg (· + 1) h.total, ?_, ?_⟩
  · rw [← h.drawn]
    exact List.countP_cons
  · rw [← h.random]
    exact List.countP_cons

namespace Descent

variable {α β : Type} {comparison : Comparison}

/-- What a descent has counted. -/
def books (d : Descent) : Books where
  calls := d.calls
  evaluated := d.evaluated
  encounters := d.encounters
  found := d.found
  pairs := d.pairs

theorem aside_books : Aside books := by
  refine ⟨?_, ?_, ?_, ?_, ?_⟩
  all_goals intros; rfl

/-- Offers are not in the books. -/
theorem leaves_discard_offer_books (owner candidate : Nat) (similarity : Float) :
    Leaves books (discard (offer owner candidate similarity)) :=
  leaves_discard_offer (fun _ _ => rfl) owner candidate similarity

theorem ensures_of_books {P : Books → Prop} {m : Action Descent α} {after : α → Descent → Prop}
    (h : ∀ b, P b → m.Ensures (fun d => d.books = b) after) :
    m.Ensures (fun d => P d.books) after :=
  fun d a d' start run => h d.books start d a d' rfl run

theorem ensures_compare_books (a b : Nat) (t : Books) :
    (compare comparison a b).Ensures (fun d => d.books = t) fun _ d =>
      d.books = { t with calls := t.calls + 1, evaluated := (a, b) :: t.evaluated } := by
  intro d answer d' same run
  subst same
  have left : d' = _ := (congrArg Prod.snd run).symm.trans (after_compare comparison a b d)
  rw [left]
  rfl

theorem ensures_remember_books (e : Encounter) (t : Books) :
    (remember e).Ensures (fun d => d.books = t) fun _ d =>
      d.books = { t with encounters := e :: t.encounters } := by
  refine ensures_update fun d same => ?_
  subst same
  rfl

theorem ensures_countPair_books (t : Books) :
    countPair.Ensures (fun d => d.books = t) fun _ d => d.books = { t with pairs := t.pairs + 1 } := by
  refine ensures_update fun d same => ?_
  subst same
  rfl

/-! ### Charges -/

section Charges

variable (meter : Nat → Books → Prop)

/-- An action that succeeds puts a meter forward. -/
def Charges (m : Action Descent α) (cost : Nat) : Prop :=
  ∀ c, m.Ensures (fun d => meter c d.books) fun _ d => meter (c + cost) d.books

variable {meter}

theorem charges_of_leaves {m : Action Descent α} (h : Leaves books m) : Charges meter m 0 :=
  fun c => h.keeps (meter c)

theorem charges_bind {m : Action Descent β} {f : β → Action Descent α} {cost cost' : Nat}
    (first : Charges meter m cost) (second : ∀ b, Charges meter (f b) cost') :
    Charges meter (m >>= f) (cost + cost') := by
  intro c
  rw [← Nat.add_assoc]
  exact ensures_bind (first c) fun b => second b (c + cost)

/-- What comes before is not in the books, but its result is known. -/
theorem charges_behind {m : Action Descent β} {f : β → Action Descent α} {result : β → Prop}
    {cost : Nat} (leaves : Leaves books m) (yields : m.Yields result)
    (h : ∀ b, result b → Charges meter (f b) cost) : Charges meter (m >>= f) cost := by
  intro c
  refine ensures_bind ((leaves.keeps (meter c)).and_yields yields) fun b => ?_
  exact ensures_of_fact fun known => h b known c

theorem charges_after {m : Action Descent β} {f : β → Action Descent α} {cost : Nat}
    (leaves : Leaves books m) (h : ∀ b, Charges meter (f b) cost) : Charges meter (m >>= f) cost :=
  charges_behind leaves (yields_any m) fun b _ => h b

/-- What comes behind is not in the books. -/
theorem charges_before {m : Action Descent β} {f : β → Action Descent α} {cost : Nat}
    (h : Charges meter m cost) (leaves : ∀ b, Leaves books (f b)) : Charges meter (m >>= f) cost :=
  charges_bind h fun b => charges_of_leaves (leaves b)

theorem charges_forEach {items : List β} {f : β → Action Descent Unit} {cost : Nat}
    (each : ∀ b ∈ items, Charges meter (f b) cost) :
    Charges meter (forEach items f) (items.length * cost) := by
  induction items with
  | nil =>
    rw [List.length_nil, Nat.zero_mul]
    exact charges_of_leaves (leaves_pure ())
  | cons b rest ih =>
    rw [List.length_cons, Nat.succ_mul, Nat.add_comm]
    refine charges_bind (m := f b) (each b List.mem_cons_self) fun _ => ?_
    exact ih fun c member => each c (List.mem_cons_of_mem _ member)

theorem charges_repeatTimes {m : Action Descent Unit} {cost : Nat} (h : Charges meter m cost)
    (count : Nat) : Charges meter (repeatTimes count m) (count * cost) := by
  induction count with
  | zero =>
    rw [Nat.zero_mul]
    exact charges_of_leaves (leaves_pure ())
  | succ count ih =>
    rw [Nat.succ_mul, Nat.add_comm (count * cost)]
    exact charges_bind h fun _ => ih

theorem charges_overNodes {signal : Nat} {p : NodeRange} {f : Nat → Action Descent Unit}
    {cost : Nat} (each : ∀ node, Charges meter (f node) cost) :
    Charges meter (overNodes signal p f) (p.size * cost) := by
  have nodes : p.nodes.length = p.size := List.length_range'
  rw [← nodes]
  refine charges_before (charges_forEach fun node _ => ?_) fun _ => leaves_report aside_books _
  exact charges_after (fun _ => Tasks.ensures_poll signal _) fun _ => each node

/-- Tasks run one after the other, each of them under the guard of a signal. -/
theorem charges_run {items : List β} {task : β → Action Descent α} {cost : β → Nat} (signal : Nat)
    (each : ∀ b ∈ items, Charges meter (task b) (cost b)) :
    Charges meter (Tasks.run signal (items.map task)) (items.map cost).sum := by
  have all : Charges meter (Tasks.runAll signal (items.map task)) (items.map cost).sum := by
    induction items with
    | nil => exact charges_of_leaves (leaves_pure [])
    | cons b rest ih =>
      rw [List.map_cons, List.map_cons, List.sum_cons]
      have started : Charges meter (Tasks.start signal (task b)) (cost b) :=
        fun c => Tasks.ensures_start (each b List.mem_cons_self c)
      refine charges_bind (m := Tasks.start signal (task b)) started fun a => ?_
      refine charges_before (m := Tasks.runAll signal (rest.map task)) (ih ?_) fun as => leaves_pure _
      exact fun c member => each c (List.mem_cons_of_mem _ member)
  cases items with
  | nil => exact charges_of_leaves (leaves_pure [])
  | cons b rest => exact charges_after (fun _ => Tasks.ensures_assertRunning signal) fun _ => all

theorem charges_overTiles {tiles : List NodeRange} {signal : Nat}
    {task : Nat → NodeRange → Action Descent Unit} {cost : NodeRange → Nat}
    (each : ∀ signal p, Charges meter (task signal p) (cost p)) :
    Charges meter (overTiles tiles signal task) (tiles.map cost).sum := by
  refine charges_after (fun k =>
    Tasks.ensures_child (ignoresSignals_of_aside aside_books k) signal) fun below => ?_
  refine charges_behind (fun k => ensures_collect fun _ _ => leaves_drawSeed aside_books k)
    (yields_collect tiles fun _ => drawSeed) fun seeds length => ?_
  have firsts : (tiles.zip seeds).map Prod.fst = tiles :=
    List.map_fst_zip (Nat.le_of_eq length.symm)
  rw [← congrArg (fun tiles => (tiles.map cost).sum) firsts, List.map_map]
  refine charges_before (charges_run below fun q _ => ?_) fun _ => leaves_pure ()
  exact charges_after (leaves_reseed aside_books q.2) fun _ => each below q.1

theorem ensures_phase_books {name : String} {m : Action Descent α} {P : Books → Prop}
    {Q : α → Books → Prop} (h : m.Ensures (fun d => P d.books) fun a d => Q a d.books) :
    (phase name m).Ensures (fun d => P d.books) fun a d => Q a d.books :=
  ensures_phase_of_aside (aside_books.map P) (fun a => aside_books.map (Q a)) h

theorem charges_phase {name : String} {m : Action Descent α} {cost : Nat}
    (h : Charges meter m cost) : Charges meter (phase name m) cost := fun c => ensures_phase_books (h c)

end Charges

/-! ### Random candidates -/

/-- So many random candidates, and nothing else. -/
def Seeded (c : Nat) (b : Books) : Prop := Considered c c 0 b ∧ b.found = c

theorem charges_seedWith (node candidate : Nat) :
    Charges Seeded (seedWith comparison node candidate) 1 := by
  intro c
  refine ensures_of_books fun t ⟨considered, found⟩ => ?_
  refine ensures_bind (R := fun _ d => d.books = { t with found := t.found + 1 }) ?_ fun _ => ?_
  · refine ensures_update fun d same => ?_
    subst same
    rfl
  refine ensures_bind (ensures_remember_books (.drawn node candidate) _) fun _ => ?_
  refine ensures_bind (ensures_compare_books node candidate _) fun answer => ?_
  have entered := considered.enter (.drawn node candidate)
  have done (d : Descent) (same : d.books = { t.enter (.drawn node candidate) with
      found := t.found + 1 }) : Seeded (c + 1) d.books := by
    rw [same]
    exact ⟨⟨entered.calls, entered.evaluated, entered.total, entered.drawn, entered.random⟩,
      congrArg (· + 1) found⟩
  cases answer with
  | none => exact ensures_pure done
  | some similarity =>
    exact (leaves_discard_offer_books node candidate similarity _).mono (fun _ same => same)
      fun _ => done

theorem charges_seedLists (sampler : Sampler) {g : CompressedGraph} {amount : Nat}
    (fits : amount ≤ g.size - 1) (signal : Nat) (p : NodeRange) :
    Charges Seeded (seedLists sampler g comparison amount signal p) (p.size * amount) := by
  refine charges_overNodes fun node => ?_
  refine charges_behind (leaves_draw aside_books _) (yields_draw (sampler.draw_amount g fits)) ?_
  intro candidates length
  refine charges_after (leaves_requireList node) fun _ => ?_
  have each : Charges Seeded (forEach candidates (seedWith comparison node))
      (candidates.length * 1) := charges_forEach fun candidate _ => charges_seedWith node candidate
  rw [Nat.mul_one, length] at each
  exact each

/-! ### Joins -/

/-- After `total` earlier comparisons, those of an iteration, so many of all with random nodes. -/
def Joined (total drawn c : Nat) (b : Books) : Prop := Considered (total + b.pairs) drawn c b

section Join

variable {total drawn : Nat}

theorem charges_joinPair (rule : JoinRule) (a b : Nat) :
    Charges (Joined total drawn) (joinPair rule a b) 0 := by
  intro c
  refine ensures_ite (fun _ => ensures_pure fun _ known => known) fun _ => ?_
  refine ensures_of_books fun t considered => ?_
  refine ensures_bind (ensures_countPair_books t) fun _ => ?_
  refine ensures_bind (ensures_remember_books (.joined a b) _) fun _ => ?_
  refine ensures_bind (ensures_compare_books a b _) fun answer => ?_
  have entered := considered.enter (.joined a b)
  have done (d : Descent) (same : d.books = { t.enter (.joined a b) with pairs := t.pairs + 1 }) :
      Joined total drawn c d.books := by
    rw [same]
    exact ⟨entered.calls, entered.evaluated, entered.total, entered.drawn, entered.random⟩
  have counted (owner candidate : Nat) (similarity : Float) :
      Leaves books (offerCounted owner candidate similarity) :=
    leaves_offerCounted (fun _ _ => rfl) (fun _ _ => rfl) owner candidate similarity
  cases answer with
  | none => exact ensures_pure done
  | some similarity =>
    refine ensures_bind (counted a b similarity _) fun _ => ?_
    exact (counted b a similarity _).mono (fun _ same => same) fun _ => done

theorem charges_joinRandom (rule : JoinRule) (node : Nat) :
    Charges (Joined total drawn) (joinRandom rule node) 1 := by
  refine charges_after (leaves_read _) fun count => ?_
  refine charges_after (leaves_draw aside_books _) fun place => ?_
  intro c
  refine ensures_of_books fun t considered => ?_
  refine ensures_bind (ensures_countPair_books t) fun _ => ?_
  let other := if node ≤ place then place + 1 else place
  refine ensures_bind (ensures_compare_books node other _) fun answer => ?_
  have remembers (heard : Bool) (t' : Books) (compared : t' = { t with
        pairs := t.pairs + 1, calls := t.calls + 1, evaluated := (node, other) :: t.evaluated }) :
      (remember (.random node other heard)).Ensures (fun d => d.books = t')
        fun _ d => Joined total drawn (c + 1) d.books := by
    have entered := considered.enter (.random node other heard)
    refine (ensures_remember_books (.random node other heard) t').mono (fun _ same => same) ?_
    intro _ d same
    rw [same, compared]
    exact ⟨entered.calls, entered.evaluated, entered.total, entered.drawn, entered.random⟩
  cases answer with
  | none => exact remembers false _ rfl
  | some similarity =>
    refine ensures_bind (leaves_discard_offer_books node other similarity _) fun _ => ?_
    refine ensures_bind (leaves_perturbs aside_books rule.perturbationRate _) fun heard => ?_
    refine ensures_bind (remembers heard _ rfl) fun _ => ?_
    refine ensures_ite (fun _ => ?_) fun _ => ensures_pure fun _ known => known
    exact (leaves_discard_offer_books other node similarity).keeps (Joined total drawn (c + 1))

theorem charges_joinNode (rule : JoinRule) (node : Nat) :
    Charges (Joined total drawn) (joinNode rule node) rule.randomJoins := by
  refine charges_after (leaves_gather aside_books _ node) fun candidates => ?_
  let listed := candidatePairs candidates.1 candidates.2
  have pairs : Charges (Joined total drawn) (forEach listed fun pair => joinPair rule pair.1 pair.2)
      (listed.length * 0) := charges_forEach fun pair _ => charges_joinPair rule pair.1 pair.2
  have others : Charges (Joined total drawn) (repeatTimes rule.randomJoins (joinRandom rule node))
      (rule.randomJoins * 1) := charges_repeatTimes (charges_joinRandom rule node) rule.randomJoins
  have both := charges_bind pairs fun _ => others
  rw [Nat.mul_zero, Nat.zero_add, Nat.mul_one] at both
  exact both

end Join

/-! ### Candidates of an iteration -/

theorem leaves_reverseMaps_books (nodeCount batch signal : Nat) :
    Leaves books (reverseMaps nodeCount batch signal) := by
  refine leaves_forEach fun node _ => ?_
  refine leaves_bind (fun _ => Tasks.ensures_poll signal node) fun _ => ?_
  refine leaves_bind ?_ fun _ => leaves_ite (leaves_report aside_books _) (leaves_pure _)
  refine leaves_bind (leaves_read _) fun old => ?_
  refine leaves_bind (leaves_check old) fun old => ?_
  refine leaves_bind (leaves_overMap (fun _ _ => rfl) _) fun _ => ?_
  refine leaves_bind (leaves_read _) fun new => ?_
  refine leaves_bind (leaves_check new) fun new => ?_
  exact leaves_overMap (fun _ _ => rfl) _

theorem leaves_filterLists_books (cutoff : Float) (p : NodeRange) :
    Leaves books (filterLists cutoff p) := by
  refine leaves_bind (leaves_forEach fun node _ => ?_) fun _ => leaves_report aside_books _
  exact leaves_bind (leaves_requireList node) fun _ => leaves_update fun _ => rfl

end Descent

/-! ### Runs -/

namespace Search

open Descent

variable {s : Search}

/-- Random candidates of all nodes. -/
def seedCount (s : Search) : Nat := s.nodeCount * s.config.listCapacity s.nodeCount

/-- Random nodes that are joined in one iteration. -/
def randomCount (s : Search) : Nat := s.nodeCount * s.config.randomJoins.toNat

/-- As many comparisons as pairs, after so many iterations. -/
def Balanced (s : Search) (r : Rounds) (b : Books) : Prop :=
  Considered r.pairs s.seedCount (r.iterations * s.randomCount) b

theorem sum_size_mul (s : Search) (count : Nat) :
    (s.tiles.map fun p => p.size * count).sum = s.nodeCount * count := by
  rw [List.sum_map_mul_right]
  exact congrArg (· * count) (NodeRange.sum_size_tiles _ _ _)

theorem charges_seedAll (signal : Nat) : Charges Seeded (s.seedAll signal) s.seedCount := by
  have fits : s.config.listCapacity s.nodeCount ≤ s.graph.size - 1 := by
    show min s.config.topK.toNat (s.nodeCount - 1) ≤ s.nodeCount - 1
    omega
  rw [seedCount, ← sum_size_mul]
  exact charges_phase (charges_overTiles fun signal p => charges_seedLists _ fits signal p)

theorem ensures_iteration_considered {total drawn random : Nat} (signal : Nat) :
    (s.iteration signal).Ensures (fun d => Considered total drawn random d.books)
      fun _ d => Joined total drawn (random + s.randomCount) d.books := by
  have splits : Leaves books (phase "Split old and new neighbors"
      (splitTiles s.tiles (s.config.sampleSize s.nodeCount) signal)) :=
    leaves_phase aside_books (leaves_splitTiles aside_books (fun _ _ _ _ => rfl) _ _ signal)
  refine ensures_bind (splits.keeps (Considered total drawn random)) fun _ => ?_
  refine ensures_bind (Leaves.keeps (leaves_phase aside_books ?_) (Considered total drawn random))
    fun _ => ?_
  · exact leaves_bind (leaves_update fun _ => rfl) fun _ => leaves_reverseMaps_books _ _ signal
  have joins : Charges (Joined total drawn) (overTiles s.tiles signal (joinLists s.joinRule))
      s.randomCount := by
    rw [randomCount, ← sum_size_mul]
    exact charges_overTiles fun signal p => charges_overNodes fun node => charges_joinNode _ node
  refine ensures_phase_books (P := Considered total drawn random)
    (Q := fun _ => Joined total drawn (random + s.randomCount))
    (ensures_bind (R := fun _ d => Joined total drawn random d.books) ?_ fun _ => joins random)
  -- the pairs of the iteration before are in the total, and are counted from zero again
  exact ensures_update fun d h => ⟨h.calls, h.evaluated, h.total, h.drawn, h.random⟩

theorem ensures_iterate_balanced (signal more : Nat) (rounds : Rounds) :
    (s.iterate signal more rounds).Ensures (fun d => s.Balanced rounds d.books)
      fun r d => s.Balanced r d.books := by
  induction more generalizing rounds with
  | zero => exact ensures_pure fun _ balanced => balanced
  | succ more ih =>
    refine ensures_bind (ensures_iteration_considered signal) fun _ => ?_
    refine ensures_bind ((leaves_read _).keeps (Joined rounds.pairs s.seedCount
      (rounds.iterations * s.randomCount + s.randomCount))) fun updates => ?_
    refine ensures_bind (R := fun pairs d => Considered (rounds.pairs + pairs) s.seedCount
      ((rounds.iterations + 1) * s.randomCount) d.books) ?_ fun pairs => ?_
    · refine ensures_read fun d joined => ?_
      rw [Nat.succ_mul]
      exact joined
    let next : Rounds := { rounds with
      iterations := rounds.iterations + 1, pairs := rounds.pairs + pairs }
    refine ensures_bind (R := fun _ d => s.Balanced next d.books)
      (ensures_update fun _ balanced => balanced) fun _ => ?_
    refine ensures_bind ((leaves_note aside_books _ _).keeps (s.Balanced next)) fun _ => ?_
    exact ensures_ite (fun _ => ensures_pure fun _ balanced => balanced) fun _ => ih next

theorem leaves_cutOff_books (signal : Nat) : Leaves books (s.cutOff signal) := by
  refine leaves_ite (leaves_phase aside_books ?_) (leaves_pure ())
  refine leaves_bind (fun k =>
    Tasks.ensures_child (ignoresSignals_of_aside aside_books k) signal) fun below => ?_
  refine leaves_bind (fun k => Tasks.ensures_run fun task member => ?_) fun _ => leaves_pure ()
  obtain ⟨p, -, rfl⟩ := List.mem_map.mp member
  exact leaves_filterLists_books _ p k

theorem ensures_descend_balanced (seed : UInt64) (signal : Nat) :
    (s.descend seed signal).Ensures (fun d => Seeded 0 d.books) fun o d =>
      Considered o.pairs s.seedCount (o.iterations * s.randomCount) d.books := by
  refine ensures_bind ((leaves_update fun d => aside_books.master d _).keeps (Seeded 0)) fun _ => ?_
  refine ensures_bind ((leaves_note aside_books _ _).keeps (Seeded 0)) fun _ => ?_
  refine ensures_bind (charges_seedAll signal 0) fun _ => ?_
  rw [Nat.zero_add]
  refine ensures_bind (R := fun found d => s.Balanced
    { iterations := 0, converged := false, pairs := found } d.books) ?_ fun found => ?_
  · refine ensures_read fun d ⟨considered, found⟩ => ?_
    have found : d.found = s.seedCount := found
    rw [Balanced, found, Nat.zero_mul]
    exact considered
  refine ensures_bind (ensures_phase_books (P := s.Balanced _) (Q := fun r => s.Balanced r)
    (ensures_iterate_balanced signal _ _)) fun r => ?_
  refine ensures_bind ((leaves_cutOff_books signal).keeps (s.Balanced r)) fun _ => ?_
  refine ensures_bind ((leaves_note aside_books _ _).keeps (s.Balanced r)) fun _ => ?_
  refine ensures_bind ((leaves_read _).keeps (s.Balanced r)) fun lists => ?_
  exact ensures_pure fun _ balanced => balanced

/-- Where there is nothing to compare, nothing is drawn. -/
theorem seedCount_of_nothing (nothing : s.nodeCount < 2 ∨ s.config.topK = 0) : s.seedCount = 0 := by
  rw [seedCount, Config.listCapacity, Nat.mul_eq_zero]
  rcases nothing with few | none
  · omega
  · rw [none]
    exact .inr (Nat.zero_min _)

theorem ensures_compute_balanced (entropy : UInt64) (signal : Nat) :
    (s.compute entropy signal).Ensures (fun d => Seeded 0 d.books) fun o d =>
      Considered o.pairs s.seedCount (o.iterations * s.randomCount) d.books := by
  refine ensures_ite (fun nothing => ?_) fun _ => ?_
  · refine ensures_bind ((leaves_note aside_books _ _).keeps (Seeded 0)) fun _ => ?_
    refine ensures_pure fun d ⟨considered, _⟩ => ?_
    rw [seedCount_of_nothing nothing]
    show Considered 0 0 (0 * s.randomCount) d.books
    rw [Nat.zero_mul]
    exact considered
  · refine ensures_bind ((leaves_check _).keeps (Seeded 0)) fun _ => ?_
    exact ensures_descend_balanced _ signal

/-- Every run, also one that fails, compares different nodes of the graph only, and counts how often.
A run that succeeds reports that count as its pairs.  Its history holds all of them in order, among them
one for every random candidate of every node, and in every iteration one for every random node that a
node is joined with. -/
theorem run_comparisons (s : Search) (entropy : UInt64) (signals : Signals) (signal : Nat) :
    let r := s.run entropy signals signal
    ((∀ pair ∈ r.2.evaluated, pair.1 ≠ pair.2 ∧ pair.1 < s.nodeCount ∧ pair.2 < s.nodeCount)
        ∧ r.2.evaluated.length = r.2.calls)
      ∧ ∀ o, r.1 = .ok o →
        o.pairs = r.2.calls
          ∧ r.2.encounters.map Encounter.nodes = r.2.evaluated
          ∧ r.2.encounters.countP Encounter.isDrawn
            = s.nodeCount * s.config.listCapacity s.nodeCount
          ∧ r.2.encounters.countP Encounter.isRandom
            = o.iterations * s.nodeCount * s.config.randomJoins.toNat := by
  intro r
  have grounded := s.grounded_run entropy signals signal
  refine ⟨⟨fun pair member => ?_, grounded.counted⟩, fun o succeeds => ?_⟩
  · obtain ⟨first, second, different⟩ := grounded.evaluated pair member
    exact ⟨different.symm, first, second⟩
  · have start : Seeded 0
        (start signals s.nodeCount (s.config.listCapacity s.nodeCount)).books :=
      ⟨⟨rfl, rfl, rfl, rfl, rfl⟩, rfl⟩
    have ends : s.compute entropy signal _ = (.ok o, r.2) := Prod.ext succeeds rfl
    obtain ⟨calls, evaluated, -, drawn, random⟩ :=
      ensures_compute_balanced entropy signal _ o r.2 start ends
    refine ⟨calls.symm, evaluated.symm, drawn, ?_⟩
    rw [Nat.mul_assoc]
    exact random

end Search

end NeighborGraph
