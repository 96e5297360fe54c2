import NeighborGraph.NeighborList
import NeighborGraph.Schedule.Progress
import NeighborGraph.Schedule.Tasks

/-!
# The state of a descent

A descent improves the neighbor lists of all nodes step by step: it compares nodes that may be close
and offers each of them to the other.  `Descent` is everything it changes on the way; after a
failure it is as the failing step left it.

Nodes are compared by a `Comparison`, which answers the calls of a run one by one.  An answer may
raise signals, or crash.  What it yields is a similarity or, for nodes that cannot be compared,
nothing; NaN counts as nothing.
-/

namespace NeighborGraph

/-- What one comparison does. -/
structure Evaluation where
  /-- The similarity, nothing for nodes that cannot be compared, or the text of a crash. -/
  outcome : Except String (Option Float)
  /-- A signal that is raised. -/
  raises : Option Nat := none

/-- The comparison of two nodes, given the number of calls before. -/
abbrev Comparison := (call a b : Nat) → Evaluation

/-- A comparison that depends on the nodes alone. -/
def Comparison.ofFunction (f : Nat → Nat → Option Float) : Comparison := fun _ a b =>
  { outcome := .ok (f a b) }

/-- For every node, other nodes. -/
abbrev NodeMap := Array (Array Nat)

namespace NodeMap

/-- A map with no entries for any node. -/
def empty (nodeCount : Nat) : NodeMap := Array.replicate nodeCount #[]

/-- The entries of a node. -/
def entries (m : NodeMap) (node : Nat) : Checked (List Nat) :=
  match m[node]? with
  | none => .error (.crash (.indexOutOfRange node m.size))
  | some xs => .ok xs.toList

end NodeMap

/-- Two nodes that were compared, and why. -/
inductive Encounter
  /-- A node with a random candidate it starts from. -/
  | drawn (node candidate : Nat)
  /-- Two candidates of one node. -/
  | joined (a b : Nat)
  /-- A node with a random other one, and whether the other one hears of it. -/
  | random (node other : Nat) (heard : Bool)
deriving DecidableEq, Repr

/-- What a descent changes. -/
structure Descent where
  signals : Signals
  /-- The neighbor list of every node. -/
  lists : Array NeighborList
  /-- The neighbors of every node that were picked before. -/
  old : NodeMap
  /-- The neighbors of every node that are picked now. -/
  new : NodeMap
  /-- For every node, the nodes that have it as an old candidate. -/
  reverseOld : NodeMap
  /-- For every node, the nodes that have it as a new candidate. -/
  reverseNew : NodeMap
  /-- The stream that seeds those of the tasks. -/
  master : Random.Stream := default
  /-- The stream of the current task. -/
  stream : Random.Stream := default
  /-- Comparisons so far. -/
  calls : Nat := 0
  /-- The nodes of every comparison so far, latest first, whether or not it gave an answer. -/
  evaluated : List (Nat × Nat) := []
  /-- Random candidates so far. -/
  found : Nat := 0
  /-- Offers of the current iteration that changed a list. -/
  updates : Nat := 0
  /-- Pairs of the current iteration. -/
  pairs : Nat := 0
  /-- Everything that was compared, latest first. -/
  encounters : List Encounter := []
  /-- The updates of every iteration so far, latest first. -/
  updateCounts : List Nat := []
  events : Array ProgressEvent := #[]
  log : Array LogLine := #[]

instance : HasSignals Descent where
  signals d := d.signals
  withSignals signals d := { d with signals }

namespace Descent

/-- The state at the start: empty lists and no candidates. -/
def start (signals : Signals) (nodeCount capacity : Nat) : Descent where
  signals := signals
  lists := Array.replicate nodeCount { capacity }
  old := .empty nodeCount
  new := .empty nodeCount
  reverseOld := .empty nodeCount
  reverseNew := .empty nodeCount

/-- Draws from the stream of the current task. -/
def draw {α : Type} (m : Random.Draw α) : Action Descent α :=
  Action.zoom (·.stream) (fun stream d => { d with stream }) m

/-- Draws from the stream that seeds the tasks. -/
def drawSeed : Action Descent UInt64 :=
  Action.zoom (·.master) (fun master d => { d with master }) Random.nextSeed

/-- Gives the current task a stream of its own. -/
def reseed (seed : UInt64) : Action Descent Unit :=
  Action.update fun d => { d with stream := Random.Stream.ofSeed seed }

/-- Reports progress. -/
def report (event : ProgressEvent) : Action Descent Unit :=
  Action.update fun d => { d with events := d.events.push event }

/-- Writes a line to the log. -/
def note (level : LogLevel) (text : String) : Action Descent Unit :=
  Action.update fun d => { d with log := d.log.push ⟨level, text⟩ }

/-- Remembers an encounter. -/
def remember (encounter : Encounter) : Action Descent Unit :=
  Action.update fun d => { d with encounters := encounter :: d.encounters }

/-- Compares two nodes. -/
def compare (comparison : Comparison) (a b : Nat) : Action Descent (Option Float) := fun d =>
  let e := comparison d.calls a b
  let signals := match e.raises with
    | none => d.signals
    | some signal => d.signals.raise signal
  let d := { d with calls := d.calls + 1, evaluated := (a, b) :: d.evaluated, signals }
  match e.outcome with
  | .error text => (.error (.crash (.raised text)), d)
  | .ok similarity => (.ok (similarity.filter (!·.isNaN)), d)

/-- Offers a candidate to the list of `owner`; whether the list changed. -/
def offer (owner candidate : Nat) (similarity : Float) : Action Descent Bool := fun d =>
  match d.lists[owner]? with
  | none => (.error (.crash (.indexOutOfRange owner d.lists.size)), d)
  | some list =>
    let (changed, list) := list.add owner candidate similarity
    (.ok changed, { d with lists := d.lists.setIfInBounds owner list })

/-- Runs an action for every node of a range, looking at a signal from time to time, and reports the
range when it is through. -/
def overNodes (signal : Nat) (p : NodeRange) (f : Nat → Action Descent Unit) :
    Action Descent Unit := do
  Action.forEach p.nodes fun node => do
    Tasks.poll signal (node - p.start)
    f node
  report (.advanced p.size)

end Descent

end NeighborGraph
