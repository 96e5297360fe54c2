import NeighborGraph.Graph.Draft

/-!
# Drafts record the accepted steps

A caller builds a graph by a sequence of `GraphStep`s, some of which are refused.
`recorded` says which relationships such a sequence adds up to, one direction each and in order,
without looking at a draft: a step whose ends are not both nodes adds nothing, a step taken while
relationships go both ways adds the way back as well, and a self-loop is added once.

`GraphDraft.Records` is the invariant: the list of every node holds what was recorded from it, a
missing property as NaN, and the draft knows whether any property was brought at all.  A step keeps
it (`records_step`), so a run does (`records_run`).
-/

namespace NeighborGraph

/-! ### Sequences of steps -/

/-- One call on a draft. -/
inductive GraphStep
  | relate (source target : UInt64)
  | relateWith (source target : UInt64) (property : Binary64)
  /-- From here on relationships go both ways, or no longer. -/
  | orient (undirected : Bool)
  | encodeAs (mode : Mode)
  | aggregateBy (aggregation : Aggregation)
  | addColumn (name : String) (column : Column)

namespace GraphDraft

/-- The draft after one step. -/
def apply (b : GraphDraft) : GraphStep → Checked GraphDraft
  | .relate source target => b.relate source target
  | .relateWith source target property => b.relateWith source target property
  | .orient undirected => .ok { b with undirected }
  | .encodeAs mode => .ok { b with mode }
  | .aggregateBy aggregation => .ok { b with aggregation }
  | .addColumn name column => b.addColumn name column

/-- The draft after one step, and the same draft if the step is refused. -/
def attempt (b : GraphDraft) (step : GraphStep) : GraphDraft :=
  match b.apply step with
  | .ok b => b
  | .error _ => b

/-- The draft after some steps. -/
def run (b : GraphDraft) (steps : List GraphStep) : GraphDraft := steps.foldl attempt b

/-- A run goes on as if its refused steps had not been taken. -/
theorem run_refused (b : GraphDraft) (front back : List GraphStep) {step : GraphStep} {fault : Fault}
    (refused : (b.run front).apply step = .error fault) :
    b.run (front ++ step :: back) = b.run (front ++ back) := by
  have same : (b.run front).attempt step = b.run front := by
    rw [attempt, refused]
  rw [run, List.foldl_append, List.foldl_cons]
  show ((b.run front).attempt step).run back = _
  rw [same, run, run, run, List.foldl_append]

end GraphDraft

/-! ### What steps add up to -/

/-- One direction of a relationship as it was added. -/
structure Recorded where
  source : UInt64
  target : UInt64
  property : Option Binary64

/-- The directions in which a relationship between two nodes is recorded. -/
def directions (nodeCount : UInt64) (undirected : Bool) (source target : UInt64)
    (property : Option Binary64) : List Recorded :=
  if source < nodeCount ∧ target < nodeCount then
    if undirected ∧ source ≠ target then
      [⟨source, target, property⟩, ⟨target, source, property⟩]
    else [⟨source, target, property⟩]
  else []

namespace GraphStep

/-- What a step adds. -/
def adds (nodeCount : UInt64) (undirected : Bool) : GraphStep → List Recorded
  | relate source target => directions nodeCount undirected source target none
  | relateWith source target property =>
    directions nodeCount undirected source target (some property)
  | _ => []

/-- Whether relationships go both ways after a step. -/
def bothWays (undirected : Bool) : GraphStep → Bool
  | orient undirected => undirected
  | _ => undirected

end GraphStep

/-- What a sequence of steps adds. -/
def recorded (nodeCount : UInt64) : (undirected : Bool) → List GraphStep → List Recorded
  | _, [] => []
  | undirected, step :: rest =>
    step.adds nodeCount undirected ++ recorded nodeCount (step.bothWays undirected) rest

/-- The relationships recorded from a node, a missing property as NaN. -/
def recordedFrom (node : UInt64) (records : List Recorded) : List (UInt64 × Binary64) :=
  (records.filter fun r => decide (r.source = node)).map fun r => (r.target, r.property.getD .nan)

/-- Whether some relationship was recorded with a property. -/
def anyProperty (records : List Recorded) : Bool := records.any (·.property.isSome)

theorem recordedFrom_append (node : UInt64) (front back : List Recorded) :
    recordedFrom node (front ++ back) = recordedFrom node front ++ recordedFrom node back := by
  rw [recordedFrom, List.filter_append, List.map_append, recordedFrom, recordedFrom]

theorem recordedFrom_one (node : UInt64) (r : Recorded) :
    recordedFrom node [r] = if r.source = node then [(r.target, r.property.getD .nan)] else [] := by
  by_cases own : r.source = node <;> simp [recordedFrom, own]

/-! ### The invariant -/

namespace GraphDraft

/-- The lists of a draft over `nodeCount` nodes hold what was recorded. -/
structure Records (b : GraphDraft) (nodeCount : UInt64) (undirected : Bool)
    (records : List Recorded) : Prop where
  nodes : b.nodeCount = nodeCount
  ways : b.undirected = undirected
  size : b.lists.size = nodeCount.toNat
  lists : ∀ node < nodeCount, b.lists[node.toNat]? = some (recordedFrom node records).toArray
  properties : b.withProperties = anyProperty records

theorem records_ofNodeCount (nodeCount : UInt64) :
    (ofNodeCount nodeCount).Records nodeCount false [] := by
  refine ⟨rfl, rfl, Array.size_replicate, ?_, rfl⟩
  intro node inside
  have inside : node.toNat < nodeCount.toNat := inside
  show (Array.replicate nodeCount.toNat #[])[node.toNat]? = some #[]
  rw [Array.getElem?_replicate, if_pos inside]

/-- One direction is recorded at its source, and nowhere else. -/
theorem records_push {b : GraphDraft} {nodeCount : UInt64} {undirected : Bool}
    {records : List Recorded} (h : b.Records nodeCount undirected records) (r : Recorded) :
    { b.push r.source r.target (r.property.getD .nan) with
        withProperties := b.withProperties || r.property.isSome }.Records nodeCount undirected
      (records ++ [r]) := by
  refine ⟨h.nodes, h.ways, ?_, ?_, ?_⟩
  · show (b.lists.modify _ _).size = _
    rw [Array.size_modify, h.size]
  · intro node inside
    show (b.lists.modify _ _)[node.toNat]? = _
    rw [Array.getElem?_modify, h.lists node inside, recordedFrom_append, recordedFrom_one]
    by_cases own : r.source = node
    · rw [if_pos own, if_pos (congrArg UInt64.toNat own), Option.map_some, List.push_toArray]
    · have away : r.source.toNat ≠ node.toNat := fun same => own (UInt64.toNat_inj.mp same)
      rw [if_neg own, if_neg away, List.append_nil]
  · show (b.withProperties || r.property.isSome) = _
    rw [h.properties, anyProperty, anyProperty, List.any_append, List.any_cons, List.any_nil,
      Bool.or_false]

theorem record_eq (b : GraphDraft) (source target : UInt64) (property : Binary64) :
    b.record source target property
      = if b.undirected ∧ source ≠ target then
          (b.push source target property).push target source property
        else b.push source target property := rfl

/-- A relationship is recorded in the directions asked for. -/
theorem records_record {b : GraphDraft} {nodeCount : UInt64} {undirected : Bool}
    {records : List Recorded} (h : b.Records nodeCount undirected records)
    {source target : UInt64} (inside : source < nodeCount ∧ target < nodeCount)
    (property : Option Binary64) :
    { b.record source target (property.getD .nan) with
        withProperties := b.withProperties || property.isSome }.Records nodeCount undirected
      (records ++ directions nodeCount undirected source target property) := by
  have there := records_push h ⟨source, target, property⟩
  rw [directions, if_pos inside, record_eq, h.ways]
  by_cases back : undirected = true ∧ source ≠ target
  · have around := records_push there ⟨target, source, property⟩
    rw [List.append_assoc] at around
    rw [if_pos back, if_pos back]
    simp only [Bool.or_assoc, Bool.or_self] at around
    exact around
  · rw [if_neg back, if_neg back]
    exact there

theorem check_of_inside {b : GraphDraft} {source target : UInt64}
    (inside : source < b.nodeCount ∧ target < b.nodeCount) : b.check source target = .ok () :=
  if_pos inside

theorem check_of_outside {b : GraphDraft} {source target : UInt64}
    (outside : ¬(source < b.nodeCount ∧ target < b.nodeCount)) :
    ∃ fault, b.check source target = .error fault := ⟨_, if_neg outside⟩

/-- One step keeps the lists in line with what it adds. -/
theorem records_step {b : GraphDraft} {nodeCount : UInt64} {undirected : Bool}
    {records : List Recorded} (h : b.Records nodeCount undirected records) (step : GraphStep) :
    (b.attempt step).Records nodeCount (step.bothWays undirected)
      (records ++ step.adds nodeCount undirected) := by
  cases step with
  | relate source target =>
    by_cases inside : source < nodeCount ∧ target < nodeCount
    · have passed : b.check source target = .ok () := check_of_inside (h.nodes ▸ inside)
      have kept := records_record h inside none
      have same : { b.record source target .nan with withProperties := b.withProperties }
          = b.record source target .nan := by
        rw [record_eq]
        split <;> rfl
      rw [Option.isSome_none, Bool.or_false, Option.getD_none, same] at kept
      simp only [attempt, apply, relate, passed]
      exact kept
    · obtain ⟨fault, refused⟩ := check_of_outside (b := b) (h.nodes ▸ inside)
      simp only [attempt, apply, relate, refused, GraphStep.adds, directions, if_neg inside,
        List.append_nil]
      exact h
  | relateWith source target property =>
    by_cases inside : source < nodeCount ∧ target < nodeCount
    · have passed : b.check source target = .ok () := check_of_inside (h.nodes ▸ inside)
      have kept := records_record h inside (some property)
      rw [Option.isSome_some, Bool.or_true] at kept
      simp only [attempt, apply, relateWith, passed]
      exact kept
    · obtain ⟨fault, refused⟩ := check_of_outside (b := b) (h.nodes ▸ inside)
      simp only [attempt, apply, relateWith, refused, GraphStep.adds, directions, if_neg inside,
        List.append_nil]
      exact h
  | orient both =>
    show Records _ _ _ (records ++ [])
    rw [List.append_nil]
    exact ⟨h.nodes, rfl, h.size, h.lists, h.properties⟩
  | encodeAs mode =>
    show Records _ _ _ (records ++ [])
    rw [List.append_nil]
    exact ⟨h.nodes, h.ways, h.size, h.lists, h.properties⟩
  | aggregateBy aggregation =>
    show Records _ _ _ (records ++ [])
    rw [List.append_nil]
    exact ⟨h.nodes, h.ways, h.size, h.lists, h.properties⟩
  | addColumn name column =>
    show Records _ _ _ (records ++ [])
    rw [List.append_nil, attempt, apply, addColumn]
    cases b.properties.insert name column b.nodeCount.toNat with
    | error fault => exact h
    | ok properties => exact ⟨h.nodes, h.ways, h.size, h.lists, h.properties⟩

/-- A run keeps the lists in line with what its steps add. -/
theorem records_run {b : GraphDraft} {nodeCount : UInt64} {undirected : Bool}
    {records : List Recorded} (h : b.Records nodeCount undirected records)
    (steps : List GraphStep) :
    ∃ both, (b.run steps).Records nodeCount both
      (records ++ recorded nodeCount undirected steps) := by
  induction steps generalizing b undirected records with
  | nil =>
    rw [recorded, List.append_nil]
    exact ⟨undirected, h⟩
  | cons step rest ih =>
    rw [recorded, ← List.append_assoc]
    exact ih (records_step h step)

end GraphDraft

end NeighborGraph
