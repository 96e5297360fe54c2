import NeighborGraph.Graph.Basic
import NeighborGraph.Similarity.Resolution
import NeighborGraph.Similarity.Sets
import NeighborGraph.Similarity.Vectors

/-!
# Node similarity

`ColumnSimilarity` compares two nodes by one column under one concrete metric.  `NodeSimilarity`
compares them by one or more columns and takes the mean.  A pair is *incomparable*, and has no
similarity, when a value is absent, when two vectors differ in length or are empty, or when the
metric is NaN.
-/

namespace NeighborGraph

/-- A column to compare nodes by, and how. -/
structure PropertySpec where
  name : String
  metric : Metric := .standard
deriving DecidableEq, Repr, Inhabited

/-- A column under a concrete metric. -/
structure ColumnSimilarity where
  name : String
  column : Column
  metric : Metric
deriving Repr

namespace ColumnSimilarity

/-- Long arrays that a set metric compares become sets once and for all. -/
def prepare (metric : Metric) (column : Column) : Column :=
  match column with
  | .longArray arrays =>
    if metric = .jaccard ∨ metric = .overlap then .longArray (arrays.map (·.map Sets.normalize))
    else column
  | _ => column

/-- A column under the metric that fits it. -/
def of (name : String) (column : Column) (metric : Metric) : Checked ColumnSimilarity :=
  (metric.resolve column.kind).map fun metric =>
    { name, column := prepare metric column, metric }

/-- A vector metric on vectors that fit each other. -/
def compareVectors (metric : Metric) (a b : List Float) : Option Float :=
  if a.length ≠ b.length ∨ a.isEmpty then none
  else
    some (match metric with
      | .euclidean => Vectors.euclidean a b
      | .pearson => Vectors.pearson a b
      | _ => Vectors.cosine a b)

/-- A vector metric on 32-bit vectors that fit each other. -/
def compareFloats (metric : Metric) (a b : List Binary32) : Option Float :=
  if a.length ≠ b.length ∨ a.isEmpty then none
  else
    some (match metric with
      | .euclidean => Vectors.euclidean32 (a.map (·.toFloat32)) (b.map (·.toFloat32))
      | .cosine => Vectors.cosine (a.map (·.toFloat)) (b.map (·.toFloat))
      | _ => Vectors.pearson (a.map (·.toFloat)) (b.map (·.toFloat)))

/-- A metric on long arrays. -/
def compareLongs (metric : Metric) (a b : List Int64) : Option Float :=
  match metric with
  | .jaccard => some (Sets.jaccard a b)
  | .overlap => some (Sets.overlap a b)
  | _ =>
    compareVectors metric (a.map fun x => Float.ofInt x.toInt) (b.map fun x => Float.ofInt x.toInt)

/-- The similarity of two numbers. -/
def compareNumbers (a b : Float) : Float := Vectors.ofDistance (a - b).abs

/-- The score of two nodes, which may still be NaN. -/
def score (p : ColumnSimilarity) (a b : Nat) : Option Float :=
  match p.column with
  | .long _ => do
    let x ← p.column.longValue a
    let y ← p.column.longValue b
    some (compareNumbers (Float.ofInt x.toInt) (Float.ofInt y.toInt))
  | .double _ => do
    let x ← p.column.doubleValue a
    let y ← p.column.doubleValue b
    some (compareNumbers x.toFloat y.toFloat)
  | .longArray _ => do
    let x ← p.column.longArrayValue a
    let y ← p.column.longArrayValue b
    compareLongs p.metric x y
  | .doubleArray _ => do
    let x ← p.column.doubleArrayValue a
    let y ← p.column.doubleArrayValue b
    compareVectors p.metric (x.map (·.toFloat)) (y.map (·.toFloat))
  | .floatArray _ => do
    let x ← p.column.floatArrayValue a
    let y ← p.column.floatArrayValue b
    compareFloats p.metric x y

/-- The similarity of two nodes; none when they are incomparable. -/
def similarity (p : ColumnSimilarity) (a b : Nat) : Option Float :=
  (p.score a b).filter (!·.isNaN)

end ColumnSimilarity

/-! ### Several columns -/

/-- The columns that nodes are compared by. -/
structure NodeSimilarity where
  properties : List ColumnSimilarity
deriving Repr

namespace NodeSimilarity

/-- Finds the column of one specification and settles its metric. -/
def ofSpec (g : CompressedGraph) (spec : PropertySpec) : Checked ColumnSimilarity :=
  match g.column spec.name with
  | .error fault => .error fault
  | .ok column => ColumnSimilarity.of spec.name column spec.metric

/-- Finds the columns of a graph and settles their metrics. -/
def of (g : CompressedGraph) (specs : List PropertySpec) : Checked NodeSimilarity :=
  if specs.isEmpty then .error (.invalidConfig .noProperties)
  else (specs.mapM (ofSpec g)).map NodeSimilarity.mk

/-- The similarities by all columns added up; none when one of them is missing. -/
def total (a b : Nat) : (properties : List ColumnSimilarity) → (sum : Float) → Option Float
  | [], sum => some sum
  | p :: rest, sum =>
    match p.similarity a b with
    | none => none
    | some s => total a b rest (sum + s)

/-- The similarity of two nodes: that of the only column, or the mean over several. -/
def similarity (n : NodeSimilarity) (a b : Nat) : Option Float :=
  match n.properties with
  | [p] => p.similarity a b
  | properties =>
    (total a b properties 0.0).map (· / Float.ofNat properties.length)

end NodeSimilarity

end NeighborGraph
