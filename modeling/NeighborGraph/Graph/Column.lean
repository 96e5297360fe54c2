import NeighborGraph.Binary64
import NeighborGraph.Fault

/-!
# Columns — typed node properties

A `Column` holds one value per node.  Absent values follow one convention per kind: the smallest
long, a NaN, or no array.  A `PropertyStore` holds the columns of one graph under their names, in
the order of the names; a column inserted under a name that is taken replaces the earlier one.
-/

namespace NeighborGraph

/-- One value per node. -/
inductive Column
  | long (values : Array Int64)
  | double (values : Array Binary64)
  | longArray (values : Array (Option (List Int64)))
  | doubleArray (values : Array (Option (List Binary64)))
  | floatArray (values : Array (Option (List Binary32)))
deriving DecidableEq, Repr

namespace Column

/-- The long that stands for an absent value. -/
def absentLong : Int64 := Int64.minValue

/-- What the column holds per node. -/
def kind : Column → ColumnKind
  | long _ => .long
  | double _ => .double
  | longArray _ => .longArray
  | doubleArray _ => .doubleArray
  | floatArray _ => .floatArray

/-- Number of values. -/
def size : Column → Nat
  | long values => values.size
  | double values => values.size
  | longArray values => values.size
  | doubleArray values => values.size
  | floatArray values => values.size

/-- The long of a node, unless it is absent. -/
def longValue (c : Column) (node : Nat) : Option Int64 :=
  match c with
  | long values => values[node]?.filter (· != absentLong)
  | _ => none

/-- The double of a node, unless it is absent. -/
def doubleValue (c : Column) (node : Nat) : Option Binary64 :=
  match c with
  | double values => values[node]?.filter (!·.isNaN)
  | _ => none

/-- The long array of a node, unless it is absent. -/
def longArrayValue (c : Column) (node : Nat) : Option (List Int64) :=
  match c with
  | longArray values => values[node]?.join
  | _ => none

/-- The double array of a node, unless it is absent. -/
def doubleArrayValue (c : Column) (node : Nat) : Option (List Binary64) :=
  match c with
  | doubleArray values => values[node]?.join
  | _ => none

/-- The float array of a node, unless it is absent. -/
def floatArrayValue (c : Column) (node : Nat) : Option (List Binary32) :=
  match c with
  | floatArray values => values[node]?.join
  | _ => none

/-- Length of the first array that is present. -/
def firstLength {α : Type} (arrays : Array (Option (List α))) : Option Nat :=
  (arrays.toList.findSome? id).map List.length

/-- Length of the first array of an array column. -/
def dimension : Column → Option Nat
  | longArray values => firstLength values
  | doubleArray values => firstLength values
  | floatArray values => firstLength values
  | _ => none

end Column

/-! ### Named columns -/

/-- The columns of one graph, in the order of their names. -/
structure PropertyStore where
  columns : List (String × Column) := []
deriving DecidableEq, Repr, Inhabited

namespace PropertyStore

/-- Puts a column in its place, over an earlier one of the same name. -/
def place (name : String) (column : Column) : List (String × Column) → List (String × Column)
  | [] => [(name, column)]
  | (other, old) :: rest =>
    if name < other then (name, column) :: (other, old) :: rest
    else if name = other then (name, column) :: rest
    else (other, old) :: place name column rest

/-- Inserts a column, which must hold one value per node. -/
def insert (s : PropertyStore) (name : String) (column : Column) (nodeCount : Nat) :
    Checked PropertyStore :=
  if column.size = nodeCount then .ok ⟨place name column s.columns⟩
  else .error (.invalidArgument (.columnLength name column.size nodeCount))

/-- The column of a name, if there is one. -/
def get? (s : PropertyStore) (name : String) : Option Column := s.columns.lookup name

/-- The column of a name. -/
def get (s : PropertyStore) (name : String) : Checked Column :=
  match s.get? name with
  | some column => .ok column
  | none => .error (.propertyNotFound name)

/-- Whether a name has a column. -/
def contains (s : PropertyStore) (name : String) : Bool := (s.get? name).isSome

/-- The names, in order. -/
def keys (s : PropertyStore) : List String := s.columns.map (·.1)

/-- Number of columns. -/
def size (s : PropertyStore) : Nat := s.columns.length

end PropertyStore

end NeighborGraph
