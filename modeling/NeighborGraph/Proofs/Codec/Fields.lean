import Mathlib.Algebra.BigOperators.Fin
import NeighborGraph.Proofs.Codec.Bits

/-!
# Writes of any widths, one after the other

A write puts one more field behind those that a buffer holds (`write_extends`), or it is refused, as
`verdict` says, and nothing happens.  So after any sequence of writes the buffer is the number of the
fields that were kept, and they are read back (`writes_make_a_number`).  Values of one width are a
sequence of which every field finds room; the bytes they make are those of their block
(`pack_eq_block`).
-/

namespace NeighborGraph.Bits

open LittleEndian (decode)

/-! ### One buffer after another -/

/-- A buffer that holds what another one holds, and some fields behind it. -/
structure Writer.Extends (w w' : Writer) (fields : List Field) : Prop where
  clear : w'.Clear
  size : w'.size = w.size
  position : w'.position = w.position + span fields
  content : decode w'.bytes = decode w.bytes + number fields * 2 ^ w.position

namespace Writer

variable {w w' w'' : Writer} {fields more : List Field}

theorem extends_self (clear : w.Clear) : w.Extends w [] :=
  ⟨clear, rfl, rfl, by simp [number]⟩

theorem Extends.trans (first : w.Extends w' fields) (second : w'.Extends w'' more) :
    w.Extends w'' (fields ++ more) := by
  constructor
  · exact second.clear
  · rw [second.size, first.size]
  · rw [second.position, first.position, span_append, Nat.add_assoc]
  · rw [second.content, first.content, first.position, number_append, Nat.add_mul, Nat.add_assoc,
      Nat.mul_assoc, ← Nat.pow_add, Nat.add_comm (span fields)]

/-- A value that finds room is one more field. -/
theorem write_extends (clear : w.Clear) {f : Field} (wide : f.bits ≤ 64)
    (room : w.position + f.bits ≤ 8 * w.size) :
    ∃ w', w.write f.value f.bits = .ok w' ∧ w.Extends w' [f] := by
  obtain ⟨w', written, clear', size, position, content⟩ := write_fits clear f.value wide room
  refine ⟨w', written, clear', size, ?_, ?_⟩
  · rw [position, span_cons]
    rfl
  · simp [content, number]

/-! ### What was written into zeros -/

variable {size : Nat}

theorem Extends.decode_eq (h : ({ size } : Writer).Extends w fields) :
    decode w.bytes = number fields := by
  have content := h.content
  rw [decode_replicate_zero, Nat.zero_add, Nat.pow_zero, Nat.mul_one] at content
  exact content

theorem Extends.length_bytes (h : ({ size } : Writer).Extends w fields) : w.bytes.length = size :=
  w.length_bytes.trans h.size

theorem Extends.position_eq (h : ({ size } : Writer).Extends w fields) :
    w.position = span fields := by
  rw [h.position, Nat.zero_add]

theorem Extends.span_le (h : ({ size } : Writer).Extends w fields) : span fields ≤ 8 * size := by
  have inside := h.clear.inside
  rw [h.position_eq, h.size] at inside
  exact inside

/-- All fields that were written are read back. -/
theorem Extends.readEach (h : ({ size } : Writer).Extends w fields)
    (narrow : ∀ f ∈ fields, f.bits ≤ 64) :
    (Reader.ofBytes w.bytes).readEach (fields.map Field.bits)
      = .ok (fields.map fun f => (low f.bits f.value).toUInt64) := by
  apply readEach_of_number narrow
  · show decode w.bytes / 2 ^ 0 % 2 ^ span fields = number fields
    rw [Nat.pow_zero, Nat.div_one, h.decode_eq, Nat.mod_eq_of_lt (number_lt fields)]
  · show 0 + span fields ≤ 8 * w.bytes.length
    rw [Nat.zero_add, h.length_bytes]
    exact h.span_le

/-! ### Sequences of writes -/

/-- Writes fields one after the other, also behind refused ones: what each write says, and the buffer
in the end. -/
def writeEach (w : Writer) : List Field → List (Except ArgumentFault Unit) × Writer
  | [] => ([], w)
  | f :: rest =>
    match w.write f.value f.bits with
    | .ok w => let (said, last) := w.writeEach rest; (.ok () :: said, last)
    | .error fault => let (said, last) := w.writeEach rest; (.error fault :: said, last)

end Writer

/-- What a write says when `position` bits of a buffer of `size` bytes are written. -/
def verdict (size position : Nat) (f : Field) : Except ArgumentFault Unit :=
  if 64 < f.bits then .error (.bitWidth f.bits)
  else if 8 * size < position + f.bits then .error (.bitWritePastEnd f.bits position size)
  else .ok ()

/-- The verdicts on some fields, and the fields that are kept. -/
def judge (size : Nat) : (position : Nat) → List Field →
    List (Except ArgumentFault Unit) × List Field
  | _, [] => ([], [])
  | position, f :: rest =>
    match verdict size position f with
    | .ok () =>
      let (said, kept) := judge size (position + f.bits) rest
      (.ok () :: said, f :: kept)
    | .error fault =>
      let (said, kept) := judge size position rest
      (.error fault :: said, kept)

theorem verdict_cases (size position : Nat) (f : Field) :
    verdict size position f = .ok () ∧ f.bits ≤ 64 ∧ position + f.bits ≤ 8 * size
      ∨ verdict size position f = .error (.bitWidth f.bits) ∧ 64 < f.bits
      ∨ verdict size position f = .error (.bitWritePastEnd f.bits position size) ∧ f.bits ≤ 64
          ∧ 8 * size < position + f.bits := by
  rw [verdict]
  split
  · next wide => exact .inr (.inl ⟨rfl, wide⟩)
  · next narrow =>
    have narrow : f.bits ≤ 64 := by omega
    split
    · next full => exact .inr (.inr ⟨rfl, narrow, full⟩)
    · next room => exact .inl ⟨rfl, narrow, by omega⟩

/-- A write puts its field behind the others or is refused, just as the verdict on it says. -/
theorem Writer.write_cases {w : Writer} (clear : w.Clear) (f : Field) :
    verdict w.size w.position f = .ok ()
        ∧ (∃ w', w.write f.value f.bits = .ok w' ∧ w.Extends w' [f])
      ∨ ∃ fault, verdict w.size w.position f = .error fault
          ∧ w.write f.value f.bits = .error fault := by
  have inside := clear.inside
  rcases verdict_cases w.size w.position f with ⟨said, wide, room⟩ | ⟨said, wide⟩ | ⟨said, wide, full⟩
  · exact .inl ⟨said, write_extends clear wide room⟩
  · refine .inr ⟨_, said, ?_⟩
    rw [write, if_neg (by omega), if_pos wide]
  · refine .inr ⟨_, said, ?_⟩
    rw [write, if_neg (by omega), if_neg (by omega), if_pos (by omega)]

theorem narrow_of_judge (size position : Nat) (fields : List Field) :
    ∀ f ∈ (judge size position fields).2, f.bits ≤ 64 := by
  induction fields generalizing position with
  | nil => simp [judge]
  | cons f rest ih =>
    rw [judge]
    rcases verdict_cases size position f with ⟨said, wide, -⟩ | ⟨said, -⟩ | ⟨said, -⟩
    · simpa [said, wide] using ih (position + f.bits)
    · simpa [said] using ih position
    · simpa [said] using ih position

/-- Any sequence of writes does what the verdicts on its fields say. -/
theorem Writer.writeEach_judged {w : Writer} (clear : w.Clear) (fields : List Field) :
    (w.writeEach fields).1 = (judge w.size w.position fields).1
      ∧ w.Extends (w.writeEach fields).2 (judge w.size w.position fields).2 := by
  induction fields generalizing w with
  | nil => exact ⟨rfl, extends_self clear⟩
  | cons f rest ih =>
    rcases write_cases clear f with ⟨said, w', written, first⟩ | ⟨fault, said, refused⟩
    · have place : w'.position = w.position + f.bits := by
        rw [first.position, span_cons]
        rfl
      obtain ⟨others, extended⟩ := ih first.clear
      rw [first.size, place] at others extended
      simp only [Writer.writeEach, written, judge, said, others, true_and]
      exact first.trans extended
    · obtain ⟨others, extended⟩ := ih clear
      simp only [Writer.writeEach, refused, judge, said, others, true_and]
      exact extended

/-- The number of some fields as a sum, each field moved by the widths of those before it. -/
theorem number_eq_sum (fields : List Field) :
    number fields = ∑ i : Fin fields.length,
      low fields[i].bits fields[i].value * 2 ^ span (fields.take i) := by
  induction fields with
  | nil => rfl
  | cons f rest ih =>
    have others : number rest * 2 ^ f.bits = ∑ i : Fin rest.length,
        low rest[i].bits rest[i].value * 2 ^ span (f :: rest.take i) := by
      rw [ih, Finset.sum_mul]
      refine Finset.sum_congr rfl fun i _ => ?_
      rw [span_cons, Nat.mul_assoc, ← Nat.pow_add, Nat.add_comm]
    show _ = ∑ i : Fin (rest.length + 1), low (f :: rest)[i].bits (f :: rest)[i].value
      * 2 ^ span ((f :: rest).take i)
    rw [number, others, Fin.sum_univ_succ]
    simp [span]

/-! ### Values of one width -/

theorem Writer.writeAll_extends {w : Writer} (clear : w.Clear) {bits : Nat} (wide : bits ≤ 64)
    (values : List UInt64) (room : w.position + bits * values.length ≤ 8 * w.size) :
    ∃ w', w.writeAll bits values = .ok w' ∧ w.Extends w' (fieldsOf bits values) := by
  induction values generalizing w with
  | nil => exact ⟨w, rfl, extends_self clear⟩
  | cons v values ih =>
    rw [List.length_cons, Nat.mul_succ] at room
    have here : w.position + (Field.mk v bits).bits ≤ 8 * w.size := by
      show w.position + bits ≤ 8 * w.size
      omega
    obtain ⟨first, written, begun⟩ := write_extends clear wide here
    have place : first.position = w.position + bits := by
      rw [begun.position, span_cons]
      rfl
    obtain ⟨last, others, extended⟩ := ih begun.clear (by rw [place, begun.size]; omega)
    refine ⟨last, ?_, begun.trans extended⟩
    rw [Writer.writeAll, written]
    exact others

/-- Packing values into the bytes of a block makes that block. -/
theorem pack_eq_block {bits slots : Nat} (wide : bits ≤ 64) {values : List UInt64}
    (room : values.length ≤ slots) :
    ∃ w, pack values bits (byteCount bits slots) = .ok w ∧ w.bytes = block bits slots values
      ∧ w.position = bits * values.length := by
  have enough := le_byteCount bits room
  obtain ⟨w, packed, extended⟩ := Writer.writeAll_extends
    (Writer.clear_start (byteCount bits slots)) wide values
    (show 0 + bits * values.length ≤ _ by rw [Nat.zero_add]; exact enough)
  refine ⟨w, packed, ?_, ?_⟩
  · apply LittleEndian.eq_of_decode_eq
    · rw [extended.length_bytes, length_block]
    · rw [extended.decode_eq, decode_block bits room, concat_eq_number]
  · rw [extended.position_eq, span_fieldsOf]

/-- Any number of values at the front of a block is read back. -/
theorem unpack_front {bits : Nat} (wide : bits ≤ 64) {values : List UInt64}
    (fits : ∀ v ∈ values, v.toNat < Nat.pow 2 bits) {count : Nat} (inside : count ≤ values.length) :
    unpack (block bits values.length values) bits count = .ok (values.take count) := by
  have length : (values.take count).length = count := List.length_take_of_le inside
  have front : (fieldsOf bits values)
      = fieldsOf bits (values.take count) ++ fieldsOf bits (values.drop count) := by
    rw [fieldsOf, fieldsOf, fieldsOf, ← List.map_append, List.take_append_drop]
  have enough := le_byteCount bits inside
  have read : (Reader.ofBytes (block bits values.length values)).readAll bits
      (values.take count).length = .ok (values.take count) := by
    apply readAll_of_concat wide fun v member => fits v (List.mem_of_mem_take member)
    · show decode (block bits values.length values) / 2 ^ 0 % 2 ^ (bits * (values.take count).length)
        = concat bits (values.take count)
      rw [Nat.pow_zero, Nat.div_one, decode_block bits (Nat.le_refl _), concat_eq_number,
        concat_eq_number, front, ← span_fieldsOf, number_append_mod]
    · show 0 + bits * (values.take count).length ≤ 8 * (block bits values.length values).length
      rw [length_block, length, Nat.zero_add]
      exact enough
  rw [length] at read
  exact read

/-! ### The number of a buffer -/

/-- Whatever is written into a buffer of zeros, each write is refused for the reason that its verdict
gives or puts one more field behind the others: read as one number, the buffer is the sum of the low
bits of all values that were kept, each moved by the widths of those before it, and a reader that asks
for their widths is given them back.  So values of one width that all of them fit are packed into as
many bytes as they need, and any number of the first of them is unpacked again. -/
theorem writes_make_a_number (size : Nat) (fields : List Field) :
    let last := (({ size } : Writer).writeEach fields).2
    let kept := (judge size 0 fields).2
    (({ size } : Writer).writeEach fields).1 = (judge size 0 fields).1
      ∧ last.bytes.length = size ∧ last.position = span kept
      ∧ decode last.bytes = ∑ i : Fin kept.length,
          low kept[i].bits kept[i].value * 2 ^ span (kept.take i)
      ∧ (Reader.ofBytes last.bytes).readEach (kept.map Field.bits)
          = .ok (kept.map fun f => (low f.bits f.value).toUInt64)
      ∧ ∀ (values : List UInt64) (bits : Nat), widthOf values ≤ bits → bits ≤ 64 →
          ∃ w, pack values bits (byteCount bits values.length) = .ok w
            ∧ w.bytesWritten = byteCount bits values.length
            ∧ ∀ count ≤ values.length,
                unpack w.bytes bits count = .ok (values.take count) := by
  obtain ⟨said, extended⟩ := Writer.writeEach_judged (Writer.clear_start size) fields
  refine ⟨said, extended.length_bytes, extended.position_eq, ?_, ?_, ?_⟩
  · rw [extended.decode_eq, number_eq_sum]
  · exact extended.readEach (narrow_of_judge size 0 fields)
  · intro values bits enough wide
    have fits : ∀ v ∈ values, v.toNat < Nat.pow 2 bits := fun v member =>
      Nat.lt_of_lt_of_le (lt_two_pow_widthOf member) (Nat.pow_le_pow_right (by omega) enough)
    obtain ⟨w, packed, bytes, position⟩ := pack_eq_block wide (Nat.le_refl values.length)
    refine ⟨w, packed, ?_, fun count inside => ?_⟩
    · rw [Writer.bytesWritten, position, byteCount, Nat.mul_comm]
    · rw [bytes]
      exact unpack_front wide fits inside

/-- Two bytes that take three fields across their boundary and refuse one that is too wide and one that
finds no room; and three values packed at two bits more than they need. -/
theorem writes_make_a_number_of_three :
    (({ size := 2 } : Writer).writeEach [⟨5, 3⟩, ⟨0x3ff, 9⟩, ⟨1, 65⟩, ⟨7, 5⟩, ⟨6, 4⟩]).1
        = [.ok (), .ok (), .error (.bitWidth 65), .error (.bitWritePastEnd 5 12 2), .ok ()]
      ∧ decode (({ size := 2 } : Writer).writeEach
          [⟨5, 3⟩, ⟨0x3ff, 9⟩, ⟨1, 65⟩, ⟨7, 5⟩, ⟨6, 4⟩]).2.bytes = 5 + 0x1ff * 8 + 6 * 4096
      ∧ widthOf [5, 0, 7] ≤ 5 ∧ 5 ≤ 64
      ∧ ∃ w, pack [5, 0, 7] 5 2 = .ok w ∧ w.bytesWritten = 2
          ∧ unpack w.bytes 5 2 = .ok [5, 0] := by
  obtain ⟨said, -, -, value, -, packs⟩ :=
    writes_make_a_number 2 [⟨5, 3⟩, ⟨0x3ff, 9⟩, ⟨1, 65⟩, ⟨7, 5⟩, ⟨6, 4⟩]
  have narrow : widthOf [5, 0, 7] ≤ 5 := by decide
  obtain ⟨w, packed, length, unpacked⟩ := packs [5, 0, 7] 5 narrow (by decide)
  refine ⟨said, value.trans ?_, narrow, by decide, w, packed, length, unpacked 2 (by decide)⟩
  decide +kernel

end NeighborGraph.Bits
