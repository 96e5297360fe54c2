import NeighborGraph.Fault

/-!
# Resolution — which metric compares which column

The standard metric of a number is the Euclidean one, of a long array the Jaccard coefficient and
of any other array the cosine.  Numbers know only the Euclidean metric; set metrics fit long arrays
alone.
-/

namespace NeighborGraph.Metric

/-- The concrete metric for a kind of column. -/
def resolve (metric : Metric) (kind : ColumnKind) : Checked Metric :=
  match kind, metric with
  | .long, standard | .double, standard => .ok euclidean
  | .long, euclidean | .double, euclidean => .ok euclidean
  | .longArray, standard => .ok jaccard
  | .longArray, m => .ok m
  | .doubleArray, standard | .floatArray, standard => .ok cosine
  | .doubleArray, euclidean | .floatArray, euclidean => .ok euclidean
  | .doubleArray, cosine | .floatArray, cosine => .ok cosine
  | .doubleArray, pearson | .floatArray, pearson => .ok pearson
  | kind, m => .error (.invalidConfig (.unsupportedMetric m kind))

end NeighborGraph.Metric
