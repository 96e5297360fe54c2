import NeighborGraph.Rounding
import NeighborGraph.Similarity.Node

/-!
# Settings of a run

`Config` holds every setting.  All have a usual value; `Config.ofTopK`, `Config.repeatable` and
`Config.exhaustive` are the usual combinations.

`Config.validate` refuses settings that no run starts with and names the first one it finds.  Three
figures follow from the settings and the number of nodes: how many neighbors a list holds, how many
new ones are compared per iteration and how few updates count as no change.
-/

namespace NeighborGraph

/-- How the first candidates of a node are found. -/
inductive Sampler
  /-- Different nodes, all equally likely. -/
  | uniform
  /-- Nodes that a random walk over the graph comes by. -/
  | randomWalk
deriving DecidableEq, Repr, Inhabited

namespace Sampler

/-- Name in configuration text. -/
def code : Sampler → String
  | uniform => "UNIFORM"
  | randomWalk => "RANDOM_WALK"

end Sampler

/-- The settings of a run. -/
structure Config where
  /-- Neighbors a list holds. -/
  topK : UInt64 := 10
  /-- Largest number of ranges the nodes are divided into. -/
  concurrency : UInt64 := 4
  maxIterations : UInt64 := 100
  /-- Share of the new neighbors that are compared per iteration. -/
  sampleRate : Float := 0.5
  /-- Share of the possible updates up to which an iteration counts as no change. -/
  deltaThreshold : Float := 0.001
  /-- Seed of a run that can be repeated. -/
  randomSeed : Option UInt64 := none
  initialSampler : Sampler := .uniform
  /-- Neighbors less similar than this are left out in the end. -/
  similarityCutoff : Float := 0.0
  /-- How likely it is that a random node hears of the node it was drawn for. -/
  perturbationRate : Float := 0.0
  /-- Random nodes that every node is compared with per iteration. -/
  randomJoins : UInt64 := 10
  minBatchSize : UInt64 := 1000
  nodeProperties : List PropertySpec := []
deriving Repr

namespace Config

/-! ### Usual combinations -/

/-- Lists of `topK` neighbors by the given columns. -/
def ofTopK (topK : UInt64) (nodeProperties : List PropertySpec) : Config :=
  { topK, nodeProperties }

/-- A run that can be repeated: a single range of nodes and a seed. -/
def repeatable (topK seed : UInt64) (nodeProperties : List PropertySpec) : Config :=
  { topK, concurrency := 1, randomSeed := some seed, nodeProperties }

/-- A run that compares all new neighbors and ends early only when nothing changes. -/
def exhaustive (topK : UInt64) (nodeProperties : List PropertySpec) : Config :=
  { topK, sampleRate := 1.0, deltaThreshold := 0.0, randomJoins := 10, nodeProperties }

/-! ### Refused settings -/

/-- Largest size of a neighbor list. -/
def largestTopK : UInt64 := 2147483647

/-- A setting between zero and one; whether zero is allowed is up to the setting. -/
def checkUnit (field : String) (zeroAllowed : Bool) (value : Float) : Checked Unit :=
  let lowEnough := if zeroAllowed then decide (0.0 ≤ value) else decide (0.0 < value)
  if lowEnough ∧ value ≤ 1.0 then .ok ()
  else .error (.invalidConfig (.outsideUnit field zeroAllowed value))

/-- The first name that an earlier column has, too. -/
def repeatedName? (earlier : List String) : List PropertySpec → Option String
  | [] => none
  | spec :: rest =>
    if earlier.contains spec.name then some spec.name
    else repeatedName? (spec.name :: earlier) rest

/-- No column is listed twice. -/
def checkNames (specs : List PropertySpec) : Checked Unit :=
  match repeatedName? [] specs with
  | none => .ok ()
  | some name => .error (.invalidConfig (.repeatedProperty name))

/-- A condition on settings. -/
def require (condition : Bool) (cause : ConfigFault) : Checked Unit :=
  if condition then .ok () else .error (.invalidConfig cause)

/-- Refuses settings that no run starts with. -/
def validate (c : Config) : Checked Unit := do
  require (c.concurrency ≠ 0) .noConcurrency
  require (c.maxIterations ≠ 0) .noIterations
  require (c.topK ≤ largestTopK) (.topKTooLarge c.topK.toNat)
  checkUnit "sample_rate" false c.sampleRate
  checkUnit "delta_threshold" true c.deltaThreshold
  checkUnit "similarity_cutoff" true c.similarityCutoff
  checkUnit "perturbation_rate" true c.perturbationRate
  checkNames c.nodeProperties

/-! ### Figures of a run -/

/-- Neighbors a list holds: a node is no neighbor of its own. -/
def listCapacity (c : Config) (nodeCount : Nat) : Nat := min c.topK.toNat (nodeCount - 1)

/-- New neighbors that are compared per node and iteration. -/
def sampleSize (c : Config) (nodeCount : Nat) : Nat :=
  Rounding.count (Rounding.up (c.sampleRate * Float.ofNat (c.listCapacity nodeCount)))

/-- Updates of an iteration up to which the run has converged. -/
def quietLimit (c : Config) (nodeCount : Nat) : Nat :=
  let most := Rounding.up
    (c.sampleRate * Float.ofNat c.topK.toNat * Float.ofNat nodeCount)
  Rounding.count (Rounding.down (c.deltaThreshold * most))

end Config

end NeighborGraph
