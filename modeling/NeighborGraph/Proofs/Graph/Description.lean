import NeighborGraph.Graph.Draft
import NeighborGraph.Graph.FileDescription
import NeighborGraph.Proofs.Codec.Words

/-!
# Descriptions are read back

`Reads write read` is the law of every part of a description: in front of any bytes the reader finds
what was written and leaves those bytes.  A sequence starts with its length as a 64-bit word, so the
law holds of what fits one buffer; an item is never written as no bytes at all, so a sequence that
fits has no more items than the word can say.

Words, longs, doubles and floats keep the law, and so do sequences and arrays of what keeps it.
Columns and descriptions are made of these (`reads_column`, `decode?_encode`).
-/

namespace NeighborGraph.FileDescription

open LittleEndian GraphDraft

/-- What is written is read back, whatever comes behind it. -/
structure Reads {α : Type} (write : α → List UInt8) (read : Reader α) : Prop where
  length_pos : ∀ a, 0 < (write a).length
  read_back : ∀ a rest, (write a).length ≤ largestBuffer → read (write a ++ rest) = some (a, rest)

/-! ### Numbers -/

theorem readNumber_encode (size : Nat) {n : Nat} (small : n < Nat.pow 256 size)
    (rest : List UInt8) : readNumber size (LittleEndian.encode size n ++ rest) = some (n, rest) := by
  have front : (LittleEndian.encode size n ++ rest).take size = LittleEndian.encode size n :=
    List.take_left' (length_encode size n)
  have back : (LittleEndian.encode size n ++ rest).drop size = rest :=
    List.drop_left' (length_encode size n)
  rw [readNumber, front, back, length_encode, if_pos rfl, decode_encode, Nat.mod_eq_of_lt small]

theorem reads_word : Reads encodeWord readWord where
  length_pos w := by
    rw [encodeWord, length_word]
    decide
  read_back w rest _ := by
    rw [readWord, encodeWord, word, readNumber_encode 8 w.toNat_lt, Option.map_some]
    simp

theorem reads_half : Reads encodeHalf readHalf where
  length_pos w := by
    rw [encodeHalf, length_encode]
    decide
  read_back w rest _ := by
    rw [readHalf, encodeHalf, readNumber_encode 4 w.toNat_lt, Option.map_some]
    simp

theorem reads_byte : Reads (fun b => [b]) readByte where
  length_pos _ := Nat.one_pos
  read_back _ _ _ := rfl

/-- Values that are written as others are read back if the others tell them apart. -/
theorem Reads.convert {α β : Type} {write : α → List UInt8} {read : Reader α}
    (h : Reads write read) {pack : α → β} {unpack : β → α} (inverse : ∀ b, pack (unpack b) = b) :
    Reads (fun b => write (unpack b))
      (fun bytes => (read bytes).map fun found => (pack found.1, found.2)) where
  length_pos b := h.length_pos (unpack b)
  read_back b rest fits := by
    rw [h.read_back (unpack b) rest fits, Option.map_some, inverse]

theorem reads_long : Reads encodeLong readLong := reads_word.convert Int64.toInt64_toUInt64

theorem reads_double : Reads encodeDouble readDouble := reads_word.convert fun _ => rfl

theorem reads_float : Reads encodeFloat readFloat := reads_half.convert fun _ => rfl

/-! ### Sequences -/

section Sequences

variable {α : Type} {write : α → List UInt8} {read : Reader α}

theorem length_flatMap_cons_le {item : α} {items : List α}
    (fits : ((item :: items).flatMap write).length ≤ largestBuffer) :
    (write item).length ≤ largestBuffer ∧ (items.flatMap write).length ≤ largestBuffer := by
  rw [List.flatMap_cons, List.length_append] at fits
  omega

theorem Reads.items (h : Reads write read) (items : List α) (rest : List UInt8)
    (fits : (items.flatMap write).length ≤ largestBuffer) :
    readItems read items.length (items.flatMap write ++ rest) = some (items, rest) := by
  induction items with
  | nil => rfl
  | cons item items ih =>
    obtain ⟨one, others⟩ := length_flatMap_cons_le fits
    rw [List.length_cons, List.flatMap_cons, List.append_assoc, readItems,
      h.read_back item _ one]
    simp only [ih others, Option.map_some]

theorem Reads.length_le (h : Reads write read) (items : List α) :
    items.length ≤ (items.flatMap write).length := by
  induction items with
  | nil => exact Nat.le_refl 0
  | cons item items ih =>
    have pos := h.length_pos item
    rw [List.flatMap_cons, List.length_append, List.length_cons]
    omega

theorem Reads.all (h : Reads write read) : Reads (encodeAll write) (readAll read) where
  length_pos items := by
    rw [encodeAll, List.length_append, length_encode]
    omega
  read_back items rest fits := by
    rw [encodeAll, List.length_append, length_encode] at fits
    have count := h.length_le items
    have word : largestBuffer < Nat.pow 256 8 := by decide
    rw [encodeAll, List.append_assoc, readAll, readNumber_encode 8 (by omega)]
    exact h.items items rest (by omega)

theorem Reads.array (h : Reads write read) : Reads (encodeArray write) (readArray read) where
  length_pos array := by
    cases array with
    | none => exact Nat.one_pos
    | some items => exact Nat.succ_pos _
  read_back array rest fits := by
    cases array with
    | none => rfl
    | some items =>
      rw [encodeArray, List.length_cons] at fits
      rw [encodeArray, List.cons_append, readArray, h.all.read_back items rest (by omega)]
      rfl

end Sequences

/-! ### Columns -/

theorem fromUTF8?_toUTF8 (text : String) : String.fromUTF8? text.toUTF8 = some text := by
  rw [String.fromUTF8?, String.toUTF8_eq_toByteArray, dif_pos text.isValidUTF8]
  rfl

theorem reads_text : Reads encodeText readText where
  length_pos text := reads_byte.all.length_pos _
  read_back text rest fits := by
    rw [encodeText] at fits
    have valid : String.fromUTF8? ⟨text.toUTF8.data.toList.toArray⟩ = some text := by
      rw [Array.toArray_toList]
      exact fromUTF8?_toUTF8 text
    rw [readText, encodeText, reads_byte.all.read_back _ rest fits]
    simp only [valid, Option.map_some]

/-- Values are read back by the reader of their kind. -/
theorem readValues_encodeValues (column : Column) (rest : List UInt8)
    (fits : (encodeValues column).length ≤ largestBuffer) :
    readValues (kindNumber column.kind) (encodeValues column ++ rest) = some (column, rest) := by
  cases column with
  | long values =>
    have back := reads_long.all.read_back values.toList rest fits
    simp only [Column.kind, kindNumber, readValues, encodeValues, back, Option.map_some]
  | double values =>
    have back := reads_double.all.read_back values.toList rest fits
    simp only [Column.kind, kindNumber, readValues, encodeValues, back, Option.map_some]
  | longArray values =>
    have back := reads_long.array.all.read_back values.toList rest fits
    simp only [Column.kind, kindNumber, readValues, encodeValues, back, Option.map_some]
  | doubleArray values =>
    have back := reads_double.array.all.read_back values.toList rest fits
    simp only [Column.kind, kindNumber, readValues, encodeValues, back, Option.map_some]
  | floatArray values =>
    have back := reads_float.array.all.read_back values.toList rest fits
    simp only [Column.kind, kindNumber, readValues, encodeValues, back, Option.map_some]

theorem kindNumber_lt (kind : ColumnKind) : kindNumber kind < Nat.pow 256 4 := by
  cases kind <;> decide

theorem reads_column : Reads encodeColumn readColumn where
  length_pos named := by
    have name := reads_text.length_pos named.1
    rw [encodeColumn, List.length_append, List.length_append]
    omega
  read_back named rest fits := by
    rw [encodeColumn, List.length_append, List.length_append] at fits
    have name := reads_text.read_back named.1
      (LittleEndian.encode 4 (kindNumber named.2.kind) ++ (encodeValues named.2 ++ rest)) (by omega)
    have values := readValues_encodeValues named.2 rest (by omega)
    rw [encodeColumn, List.append_assoc, List.append_assoc, readColumn, name]
    simp only [readNumber_encode 4 (kindNumber_lt named.2.kind), values, Option.map_some]

/-! ### Descriptions -/

/-- A description that fits one buffer is read back. -/
theorem decode?_encode (d : FileDescription) (fits : d.encode.length ≤ largestBuffer) :
    decode? d.encode = some d := by
  rw [encode, List.length_append, List.length_append] at fits
  have offsets := reads_word.all.read_back d.offsets
    (encodeAll encodeHalf d.degrees ++ encodeAll encodeColumn d.columns) (by omega)
  have degrees := reads_half.all.read_back d.degrees (encodeAll encodeColumn d.columns) (by omega)
  have columns := reads_column.all.read_back d.columns [] (by omega)
  rw [List.append_nil] at columns
  rw [decode?, encode, List.append_assoc, offsets]
  simp only [degrees, columns, Option.map_some]

/-! ### Sizes -/

theorem length_encodeAll {α : Type} {encodeOne : α → List UInt8} {size : Nat}
    (each : ∀ item, (encodeOne item).length = size) (items : List α) :
    (encodeAll encodeOne items).length = 8 + items.length * size := by
  have every : (items.map fun item => (encodeOne item).length) = items.map fun _ => size :=
    List.map_congr_left fun item _ => each item
  rw [encodeAll, List.length_append, length_encode, List.length_flatMap, every, List.map_const',
    List.sum_replicate_nat]

/-- Without columns a description takes eight bytes for an offset and four for a degree, and a word for
each of its three lengths. -/
theorem length_encode_bare (offsets : List UInt64) (degrees : List UInt32) :
    (FileDescription.mk offsets degrees []).encode.length
      = offsets.length * 8 + degrees.length * 4 + 24 := by
  have half (w : UInt32) : (encodeHalf w).length = 4 := length_encode 4 w.toNat
  have words : (encodeAll encodeWord offsets).length = 8 + offsets.length * 8 :=
    length_encodeAll length_word offsets
  have halves := length_encodeAll half degrees
  have none : (encodeAll encodeColumn []).length = 8 := rfl
  rw [encode, List.length_append, List.length_append, none, words, halves]
  omega

end NeighborGraph.FileDescription
