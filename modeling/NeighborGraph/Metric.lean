/-!
# Metric — the ways of comparing two values

The closed set of metrics a node property can be compared with.  `Metric.standard` stands for
"whatever fits the column"; which metric that is, and which ones fit at all, is settled against the
column's kind in `NeighborGraph.Similarity.Resolution`.
-/

namespace NeighborGraph

/-- A way of comparing two values of one column. -/
inductive Metric
  | standard
  | euclidean
  | cosine
  | pearson
  | jaccard
  | overlap
deriving DecidableEq, Repr, Inhabited

namespace Metric

/-- All metrics, in their fixed order. -/
def all : List Metric := [standard, euclidean, cosine, pearson, jaccard, overlap]

/-- Name in configuration text. -/
def code : Metric → String
  | standard => "DEFAULT"
  | euclidean => "EUCLIDEAN"
  | cosine => "COSINE"
  | pearson => "PEARSON"
  | jaccard => "JACCARD"
  | overlap => "OVERLAP"

/-- Name in messages. -/
def label : Metric → String
  | standard => "Default"
  | euclidean => "Euclidean"
  | cosine => "Cosine"
  | pearson => "Pearson"
  | jaccard => "Jaccard"
  | overlap => "Overlap"

end Metric

end NeighborGraph
