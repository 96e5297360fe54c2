/-!
# Column kinds — what a node property holds per node

The five kinds of node property columns, with the names messages use.
-/

namespace NeighborGraph

/-- What a node property column holds for each node. -/
inductive ColumnKind
  | long
  | double
  | longArray
  | doubleArray
  | floatArray
deriving DecidableEq, Repr, Inhabited

namespace ColumnKind

/-- Name in messages. -/
def label : ColumnKind → String
  | long => "Long"
  | double => "Double"
  | longArray => "LongArray"
  | doubleArray => "DoubleArray"
  | floatArray => "FloatArray"

end ColumnKind

end NeighborGraph
