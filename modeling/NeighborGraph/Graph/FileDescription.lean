import NeighborGraph.LittleEndian
import NeighborGraph.Graph.Column

/-!
# File descriptions — the self-describing part of a graph file

Between its header and its adjacency bytes a graph file describes the graph: the offsets and degrees
of the lists, and the node property columns.  Every number has a fixed width; a sequence starts with
its length, an absent array is the byte 0 and a present one the byte 1 before it, and a column
starts with the number of its kind.

A reader takes what it needs from the front of the bytes and hands back the rest; it fails when the
bytes end early or a marker has no meaning.  Bytes after the last column are ignored.
-/

namespace NeighborGraph

namespace FileDescription

/-! ### Writing -/

/-- A sequence: its length, then its items. -/
def encodeAll {α : Type} (encodeOne : α → List UInt8) (items : List α) : List UInt8 :=
  LittleEndian.encode 8 items.length ++ items.flatMap encodeOne

/-- A 64-bit word. -/
def encodeWord (w : UInt64) : List UInt8 := LittleEndian.word w

/-- A 32-bit word. -/
def encodeHalf (w : UInt32) : List UInt8 := LittleEndian.encode 4 w.toNat

/-- A long. -/
def encodeLong (x : Int64) : List UInt8 := encodeWord x.toUInt64

/-- A double. -/
def encodeDouble (x : Binary64) : List UInt8 := encodeWord x.bits

/-- A float. -/
def encodeFloat (x : Binary32) : List UInt8 := encodeHalf x.bits

/-- An array that may be absent. -/
def encodeArray {α : Type} (encodeOne : α → List UInt8) : Option (List α) → List UInt8
  | none => [0]
  | some items => 1 :: encodeAll encodeOne items

/-- A text as UTF-8. -/
def encodeText (text : String) : List UInt8 := encodeAll (fun b => [b]) text.toUTF8.data.toList

/-- The number of a kind. -/
def kindNumber : ColumnKind → Nat
  | .long => 0
  | .double => 1
  | .longArray => 2
  | .doubleArray => 3
  | .floatArray => 4

/-- The values of a column. -/
def encodeValues : Column → List UInt8
  | .long values => encodeAll encodeLong values.toList
  | .double values => encodeAll encodeDouble values.toList
  | .longArray values => encodeAll (encodeArray encodeLong) values.toList
  | .doubleArray values => encodeAll (encodeArray encodeDouble) values.toList
  | .floatArray values => encodeAll (encodeArray encodeFloat) values.toList

/-- A column under its name. -/
def encodeColumn (named : String × Column) : List UInt8 :=
  encodeText named.1 ++ LittleEndian.encode 4 (kindNumber named.2.kind) ++ encodeValues named.2

/-! ### Reading -/

/-- Takes a value from the front of some bytes. -/
abbrev Reader (α : Type) := List UInt8 → Option (α × List UInt8)

/-- A number of `size` bytes. -/
def readNumber (size : Nat) : Reader Nat := fun bytes =>
  let field := bytes.take size
  if field.length = size then some (LittleEndian.decode field, bytes.drop size) else none

/-- A 64-bit word. -/
def readWord : Reader UInt64 := fun bytes =>
  (readNumber 8 bytes).map fun (n, rest) => (n.toUInt64, rest)

/-- A 32-bit word. -/
def readHalf : Reader UInt32 := fun bytes =>
  (readNumber 4 bytes).map fun (n, rest) => (n.toUInt32, rest)

/-- A byte. -/
def readByte : Reader UInt8
  | [] => none
  | b :: rest => some (b, rest)

/-- A long. -/
def readLong : Reader Int64 := fun bytes => (readWord bytes).map fun (w, rest) => (w.toInt64, rest)

/-- A double. -/
def readDouble : Reader Binary64 := fun bytes => (readWord bytes).map fun (w, rest) => (⟨w⟩, rest)

/-- A float. -/
def readFloat : Reader Binary32 := fun bytes => (readHalf bytes).map fun (w, rest) => (⟨w⟩, rest)

/-- `count` items, one after the other. -/
def readItems {α : Type} (readOne : Reader α) : (count : Nat) → Reader (List α)
  | 0, bytes => some ([], bytes)
  | count + 1, bytes =>
    match readOne bytes with
    | none => none
    | some (item, bytes) => (readItems readOne count bytes).map fun (items, rest) =>
      (item :: items, rest)

/-- A sequence: its length, then its items. -/
def readAll {α : Type} (readOne : Reader α) : Reader (List α) := fun bytes =>
  match readNumber 8 bytes with
  | none => none
  | some (count, rest) => readItems readOne count rest

/-- An array that may be absent. -/
def readArray {α : Type} (readOne : Reader α) : Reader (Option (List α))
  | 0 :: rest => some (none, rest)
  | 1 :: rest => (readAll readOne rest).map fun (items, rest) => (some items, rest)
  | _ => none

/-- A text as UTF-8. -/
def readText : Reader String := fun bytes =>
  match readAll readByte bytes with
  | none => none
  | some (text, rest) => (String.fromUTF8? ⟨text.toArray⟩).map fun text => (text, rest)

/-- The values of a column whose kind has the given number. -/
def readValues (kind : Nat) : Reader Column := fun bytes =>
  match kind with
  | 0 => (readAll readLong bytes).map fun (v, rest) => (.long v.toArray, rest)
  | 1 => (readAll readDouble bytes).map fun (v, rest) => (.double v.toArray, rest)
  | 2 => (readAll (readArray readLong) bytes).map fun (v, rest) => (.longArray v.toArray, rest)
  | 3 => (readAll (readArray readDouble) bytes).map fun (v, rest) => (.doubleArray v.toArray, rest)
  | 4 => (readAll (readArray readFloat) bytes).map fun (v, rest) => (.floatArray v.toArray, rest)
  | _ => none

/-- A column under its name. -/
def readColumn : Reader (String × Column) := fun bytes =>
  match readText bytes with
  | none => none
  | some (name, rest) =>
    match readNumber 4 rest with
    | none => none
    | some (kind, rest) => (readValues kind rest).map fun (column, rest) => ((name, column), rest)

end FileDescription

/-- The described part of a graph. -/
structure FileDescription where
  offsets : List UInt64
  degrees : List UInt32
  columns : List (String × Column)
deriving DecidableEq, Repr

namespace FileDescription

/-- Bytes of a description. -/
def encode (d : FileDescription) : List UInt8 :=
  encodeAll encodeWord d.offsets ++ encodeAll encodeHalf d.degrees
    ++ encodeAll encodeColumn d.columns

/-- Reads a description from the front of some bytes. -/
def decode? (bytes : List UInt8) : Option FileDescription :=
  match readAll readWord bytes with
  | none => none
  | some (offsets, rest) =>
    match readAll readHalf rest with
    | none => none
    | some (degrees, rest) =>
      (readAll readColumn rest).map fun (columns, _) => { offsets, degrees, columns }

end FileDescription

end NeighborGraph
