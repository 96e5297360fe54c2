import NeighborGraph.Descent.Candidates
import NeighborGraph.Descent.LocalJoin
import NeighborGraph.Descent.Sampling
import NeighborGraph.Outcome

/-!
# Runs — from random candidates to the nearest neighbors

A `Search` is a graph, settings and a comparison.  `Search.run` compares every node with random
candidates, then repeats iterations until one of them changes few enough lists or there have been
enough of them, and finally drops neighbors that are not similar enough.

A run of iterations goes through phases.  The nodes are divided into ranges and a phase has one task
per range, which draws from a stream of its own; the seeds of these streams are drawn in the order
of the ranges before the first task starts, so a run with a seed can be repeated.  Slots of the
candidate maps are handed out before the first task starts, too.  Tasks run under a
child of the run's signal, so a task that fails ends the run but leaves the signal alone.
-/

namespace NeighborGraph

/-- What to find the nearest neighbors of, and how. -/
structure Search where
  graph : CompressedGraph
  config : Config
  comparison : Comparison

/-- What the iterations of a run came to. -/
structure Rounds where
  iterations : Nat
  converged : Bool
  pairs : Nat
deriving Repr

/-- The last line of a run's log. -/
def Rounds.closing (r : Rounds) : String :=
  s!"[KNN] Finished: {r.iterations} iterations, converged={r.converged}, "
    ++ s!"{r.pairs} pairs considered"

namespace Descent

/-- Runs a phase between reports of its begin and its end. -/
def phase {α : Type} (name : String) (m : Action Descent α) : Action Descent α := do
  report (.began name)
  let a ← m
  report (.ended name)
  return a

/-- A task with a stream of its own, on what it is given. -/
def seeded {α : Type} (task : α → Action Descent Unit) (seed : UInt64) (a : α) :
    Action Descent Unit := do
  reseed seed
  task a

/-- Runs a task for every range, or for every share, given the signal it runs under. -/
def overTiles {α : Type} (tiles : List α) (signal : Nat)
    (task : (signal : Nat) → α → Action Descent Unit) : Action Descent Unit := do
  let below ← Tasks.child signal
  let seeds ← Action.collect tiles fun _ => drawSeed
  discard (Tasks.run below ((tiles.zip seeds).map fun (a, seed) => seeded (task below) seed a))

/-- Splits the lists of all ranges, each of them with its share of the maps. -/
def splitTiles (tiles : List NodeRange) (sampleSize signal : Nat) : Action Descent Unit := do
  let shares ← Action.read fun d => Share.handOut tiles (.all d.old) (.all d.new)
  let shares ← Action.check shares
  overTiles shares signal (splitLists sampleSize)

/-- Drops the neighbors of a node that are not similar enough. -/
def filterList (cutoff : Float) (node : Nat) : Action Descent Unit := do
  requireList node
  Action.update fun d => { d with lists := d.lists.modify node (·.filter cutoff) }

/-- Drops the neighbors of a range of nodes that are not similar enough. -/
def filterLists (cutoff : Float) (p : NodeRange) : Action Descent Unit := do
  Action.forEach p.nodes (filterList cutoff)
  report (.advanced p.size)

end Descent

namespace Search

open Descent

/-- Number of nodes. -/
def nodeCount (s : Search) : Nat := s.graph.size

/-- The ranges that the nodes are divided into. -/
def tiles (s : Search) : List NodeRange :=
  NodeRange.tiles s.config.concurrency.toNat s.nodeCount s.config.minBatchSize.toNat

/-- How candidates are joined. -/
def joinRule (s : Search) : JoinRule where
  comparison := s.comparison
  sampleSize := s.config.sampleSize s.nodeCount
  randomJoins := s.config.randomJoins.toNat
  perturbationRate := s.config.perturbationRate

/-- Compares every node with random candidates. -/
def seedAll (s : Search) (signal : Nat) : Action Descent Unit :=
  let amount := s.config.listCapacity s.nodeCount
  phase "Initialize random neighbors" (overTiles s.tiles signal
    (seedLists s.config.initialSampler s.graph s.comparison amount))

/-- Finds the candidates of an iteration and joins them. -/
def iteration (s : Search) (signal : Nat) : Action Descent Unit := do
  phase "Split old and new neighbors"
    (splitTiles s.tiles (s.config.sampleSize s.nodeCount) signal)
  phase "Reverse old and new neighbors" (do
    clearReverse
    reverseMaps s.nodeCount
      (NodeRange.batchSize s.nodeCount s.config.concurrency.toNat s.config.minBatchSize.toNat)
      signal)
  phase "Join neighbors" (do
    Action.update fun d => { d with updates := 0, pairs := 0 }
    overTiles s.tiles signal (joinLists s.joinRule))

/-- Repeats iterations until one changes few enough lists, at most `more` times. -/
def iterate (s : Search) (signal : Nat) : (more : Nat) → Rounds → Action Descent Rounds
  | 0, rounds => pure rounds
  | more + 1, rounds => do
    s.iteration signal
    let updates ← Action.read (·.updates)
    let pairs ← Action.read (·.pairs)
    Action.update fun d => { d with updateCounts := updates :: d.updateCounts }
    let rounds := { rounds with
      iterations := rounds.iterations + 1, pairs := rounds.pairs + pairs }
    note .debug s!"[KNN] Iteration {rounds.iterations}: {updates} updates, {pairs} pairs"
    if updates ≤ s.config.quietLimit s.nodeCount then
      return { rounds with converged := true }
    else iterate s signal more rounds

/-- Drops neighbors that are not similar enough, if the settings ask for it. -/
def cutOff (s : Search) (signal : Nat) : Action Descent Unit :=
  if 0.0 < s.config.similarityCutoff then
    phase "Filter results" (Tasks.overRanges s.config.concurrency.toNat s.nodeCount
      s.config.minBatchSize.toNat signal (filterLists s.config.similarityCutoff))
  else pure ()

/-- The first line of a run's log. -/
def opening (s : Search) (n : Nat) : String :=
  s!"[KNN] Start: {n} nodes, topK {s.config.listCapacity n}, sampledK {s.config.sampleSize n}, "
    ++ s!"threshold {s.config.quietLimit n}, concurrency {s.config.concurrency.toNat}"

/-- Finds the nearest neighbors, `seed` settling everything that is random. -/
def descend (s : Search) (seed : UInt64) (signal : Nat) : Action Descent Outcome := do
  let n := s.nodeCount
  Action.update fun d => { d with master := Random.Stream.ofSeed seed }
  note .info (s.opening n)
  s.seedAll signal
  let found ← Action.read (·.found)
  let rounds ← phase "Iteration" (s.iterate signal s.config.maxIterations.toNat
    { iterations := 0, converged := false, pairs := found })
  s.cutOff signal
  note .info rounds.closing
  let lists ← Action.read (·.lists)
  return {
    lists
    nodeCount := n
    iterations := rounds.iterations
    converged := rounds.converged
    pairs := rounds.pairs }

/-- Finds the nearest neighbors, unless there is nothing to compare or the settings are refused.
`entropy` is the seed of settings without one. -/
def compute (s : Search) (entropy : UInt64) (signal : Nat) : Action Descent Outcome :=
  if s.nodeCount < 2 ∨ s.config.topK = 0 then do
    note .debug s!"[KNN] Nothing to compare: {s.nodeCount} nodes, topK {s.config.topK.toNat}"
    return Outcome.empty
  else do
    Action.check s.config.validate
    s.descend (s.config.randomSeed.getD entropy) signal

/-- Finds the nearest neighbors with the given signals. -/
def run (s : Search) (entropy : UInt64) (signals : Signals) (signal : Nat) :
    Checked Outcome × Descent :=
  s.compute entropy signal (Descent.start signals s.nodeCount (s.config.listCapacity s.nodeCount))

/-- A search that compares nodes by the columns its settings name. -/
def ofProperties (graph : CompressedGraph) (config : Config) : Checked Search := do
  config.validate
  let similarity ← NodeSimilarity.of graph config.nodeProperties
  return { graph, config, comparison := Comparison.ofFunction similarity.similarity }

end Search

end NeighborGraph
