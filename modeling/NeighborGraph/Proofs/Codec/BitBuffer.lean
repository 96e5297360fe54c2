import Mathlib.Algebra.GroupWithZero.Nat
import NeighborGraph.Codec.Bits

/-!
# A bit buffer is a number

Read as one little-endian number, a buffer whose bits from a position on are zeros takes a value by
adding it, moved to that position (`decode_put`), and gives one back by dividing and keeping the low
bits (`toNat_gather`).  Both walk over the bytes; the share of one byte and what is left for the bytes
after it add up to the whole (`share_add_rest`, `front_add_rest`).

`Writer.write_fits` and `Reader.read_fits` say the same of a single write and a single read.
-/

namespace NeighborGraph.Bits

/-! ### Bits above a number -/

/-- A number with `bits` bits, set above one with `filled` bits. -/
theorem add_mul_two_pow_lt {n chunk filled bits : Nat} (low : n < 2 ^ filled)
    (small : chunk < 2 ^ bits) : n + chunk * 2 ^ filled < 2 ^ (filled + bits) :=
  calc n + chunk * 2 ^ filled
      < 2 ^ filled + chunk * 2 ^ filled := Nat.add_lt_add_right low _
    _ = (chunk + 1) * 2 ^ filled := by rw [Nat.add_mul, Nat.one_mul, Nat.add_comm]
    _ ≤ 2 ^ bits * 2 ^ filled := Nat.mul_le_mul_right _ small
    _ = 2 ^ (filled + bits) := by rw [Nat.pow_add, Nat.mul_comm]

theorem shiftLeft_lt {chunk filled bits width : Nat} (small : chunk < 2 ^ bits)
    (room : filled + bits ≤ width) : chunk <<< filled < 2 ^ width := by
  have moved := add_mul_two_pow_lt (Nat.two_pow_pos filled) small
  rw [Nat.zero_add] at moved
  rw [Nat.shiftLeft_eq]
  exact Nat.lt_of_lt_of_le moved (Nat.pow_le_pow_right (by omega) room)

/-- What is set into the zeros above a number is added to it. -/
theorem or_shiftLeft {n filled : Nat} (zeros : n < 2 ^ filled) (chunk : Nat) :
    n ||| chunk <<< filled = n + chunk * 2 ^ filled := by
  rw [Nat.or_comm, ← Nat.shiftLeft_add_eq_or_of_lt zeros, Nat.shiftLeft_eq, Nat.add_comm]

/-- The low bits of a number: the first of them and, above these, the others. -/
theorem mod_two_pow_add (n first second : Nat) :
    n % 2 ^ (first + second) = n % 2 ^ first + n / 2 ^ first % 2 ^ second * 2 ^ first := by
  rw [Nat.pow_add, Nat.mod_mul, Nat.mul_comm (2 ^ first)]

/-! ### Bytes and words -/

theorem toNat_amount8 {amount : Nat} (small : amount < 8) : amount.toUInt8.toNat % 8 = amount := by
  simp [Nat.mod_eq_of_lt (show amount < 256 by omega), Nat.mod_eq_of_lt small]

theorem toNat_amount64 {amount : Nat} (small : amount < 64) :
    amount.toUInt64.toNat % 64 = amount := by
  simp [Nat.mod_eq_of_lt (show amount < 18446744073709551616 by omega), Nat.mod_eq_of_lt small]

theorem toNat_or_byte {byte chunk : UInt8} {position bits : Nat}
    (zeros : byte.toNat < 2 ^ position) (small : chunk.toNat < 2 ^ bits)
    (room : position + bits ≤ 8) (inside : position < 8) :
    (byte ||| chunk <<< position.toUInt8).toNat = byte.toNat + chunk.toNat * 2 ^ position := by
  rw [UInt8.toNat_or, UInt8.toNat_shiftLeft, toNat_amount8 inside,
    Nat.mod_eq_of_lt (shiftLeft_lt small room), or_shiftLeft zeros]

theorem toNat_or_word {value chunk : UInt64} {filled bits : Nat}
    (zeros : value.toNat < 2 ^ filled) (small : chunk.toNat < 2 ^ bits)
    (room : filled + bits ≤ 64) (inside : filled < 64) :
    (value ||| chunk <<< filled.toUInt64).toNat = value.toNat + chunk.toNat * 2 ^ filled := by
  rw [UInt64.toNat_or, UInt64.toNat_shiftLeft, toNat_amount64 inside,
    Nat.mod_eq_of_lt (shiftLeft_lt small room), or_shiftLeft zeros]

theorem toNat_shiftRight_byte (byte : UInt8) {amount : Nat} (small : amount < 8) :
    (byte >>> amount.toUInt8).toNat = byte.toNat / 2 ^ amount := by
  rw [UInt8.toNat_shiftRight, toNat_amount8 small, Nat.shiftRight_eq_div_pow]

theorem toNat_shiftRight_word (value : UInt64) {amount : Nat} (small : amount < 64) :
    (value >>> amount.toUInt64).toNat = value.toNat / 2 ^ amount := by
  rw [UInt64.toNat_shiftRight, toNat_amount64 small, Nat.shiftRight_eq_div_pow]

theorem toNat_mask {bits : Nat} (wide : bits ≤ 64) : (mask bits).toNat = 2 ^ bits - 1 := by
  rw [mask]
  split
  · next whole =>
    have all : bits = 64 := by omega
    rw [all]
    rfl
  · next part =>
    have small : bits < 64 := by omega
    have single : ((1 : UInt64) <<< bits.toUInt64).toNat = 2 ^ bits := by
      have below : 1 <<< bits < 2 ^ 64 := by
        rw [Nat.one_shiftLeft]
        exact Nat.pow_lt_pow_right (by omega) small
      rw [UInt64.toNat_shiftLeft, toNat_amount64 small]
      exact (Nat.mod_eq_of_lt below).trans (Nat.one_shiftLeft bits)
    have positive : (1 : UInt64) ≤ 1 <<< bits.toUInt64 := by
      rw [UInt64.le_iff_toNat_le, single]
      exact Nat.two_pow_pos bits
    rw [UInt64.toNat_sub_of_le _ _ positive, single]
    rfl

/-- A mask keeps the low bits of a word. -/
theorem toNat_and_mask (value : UInt64) {bits : Nat} (wide : bits ≤ 64) :
    (value &&& mask bits).toNat = value.toNat % 2 ^ bits := by
  rw [UInt64.toNat_and, toNat_mask wide, Nat.and_two_pow_sub_one_eq_mod]

/-! ### The share of one byte -/

theorem share_le_left (position left : Nat) : share position left ≤ left := Nat.min_le_right ..

theorem share_le_room (position left : Nat) : share position left ≤ 8 - position :=
  Nat.min_le_left ..

/-- A byte takes as many bits as it has room for, and all there are when they are fewer. -/
theorem share_cases (position left : Nat) :
    share position left = 8 - position ∧ 8 - position ≤ left
      ∨ share position left = left ∧ left ≤ 8 - position := by
  rw [share]
  omega

/-- What a byte takes of a value, and what is left for the bytes after it. -/
theorem share_add_rest {position : Nat} (inside : position < 8) (left n : Nat) :
    n % 2 ^ share position left * 2 ^ position
        + 256 * (n / 2 ^ share position left % 2 ^ (left - share position left))
      = n % 2 ^ left * 2 ^ position := by
  have split := mod_two_pow_add n (share position left) (left - share position left)
  rw [Nat.add_sub_cancel' (share_le_left position left)] at split
  rw [split, Nat.add_mul]
  congr 1
  rcases share_cases position left with ⟨full, -⟩ | ⟨all, -⟩
  · have power : 2 ^ share position left * 2 ^ position = 256 := by
      rw [← Nat.pow_add, full, Nat.sub_add_cancel (Nat.le_of_lt inside)]
    rw [Nat.mul_assoc, power, Nat.mul_comm]
  · rw [all, Nat.sub_self, Nat.pow_zero, Nat.mod_one, Nat.zero_mul, Nat.zero_mul]

/-- What a byte brings of a value, and what the bytes after it bring. -/
theorem front_add_rest {position : Nat} (inside : position < 8) (left : Nat) (byte : UInt8)
    (n : Nat) :
    (byte.toNat + 256 * n) / 2 ^ position % 2 ^ left
      = byte.toNat / 2 ^ position % 2 ^ share position left
        + n % 2 ^ (left - share position left) * 2 ^ share position left := by
  have power : 256 = 2 ^ position * 2 ^ (8 - position) := by
    rw [← Nat.pow_add, Nat.add_sub_cancel' (Nat.le_of_lt inside)]
  have above : (byte.toNat + 256 * n) / 2 ^ position
      = byte.toNat / 2 ^ position + 2 ^ (8 - position) * n := by
    rw [power, Nat.mul_assoc, Nat.add_mul_div_left _ _ (Nat.two_pow_pos position)]
  rw [above]
  rcases share_cases position left with ⟨full, many⟩ | ⟨all, few⟩
  · have small : byte.toNat / 2 ^ position < 2 ^ (8 - position) := by
      rw [Nat.div_lt_iff_lt_mul (Nat.two_pow_pos position), Nat.mul_comm, ← power]
      exact byte.toNat_lt
    have split := mod_two_pow_add (byte.toNat / 2 ^ position + 2 ^ (8 - position) * n)
      (8 - position) (left - (8 - position))
    rw [Nat.add_sub_cancel' many, Nat.add_mul_mod_self_left,
      Nat.add_mul_div_left _ _ (Nat.two_pow_pos _), Nat.div_eq_of_lt small, Nat.zero_add] at split
    rw [full, split]
  · obtain ⟨further, more⟩ := Nat.exists_eq_add_of_le few
    rw [all, Nat.sub_self, Nat.pow_zero, Nat.mod_one, Nat.zero_mul, Nat.add_zero, more,
      Nat.pow_add, Nat.mul_assoc, Nat.add_mul_mod_self_left]

/-! ### A value in a buffer -/

open LittleEndian (decode)

/-- Bits behind the first byte are bits of the others. -/
theorem decode_cons_div (byte : UInt8) (rest : List UInt8) (position : Nat) :
    decode (byte :: rest) / 2 ^ (8 + position) = decode rest / 2 ^ position := by
  have small := byte.toNat_lt
  rw [decode, Nat.pow_add, ← Nat.div_div_eq_div_mul]
  congr 1
  omega

/-- The byte at the front after it took its share. -/
theorem toNat_put_front {byte : UInt8} {position : Nat} (inside : position < 8)
    (zeros : byte.toNat < 2 ^ position) (value : UInt64) (left : Nat) :
    (byte ||| (value &&& mask (share position left)).toUInt8 <<< position.toUInt8).toNat
      = byte.toNat + value.toNat % 2 ^ share position left * 2 ^ position := by
  have room := share_le_room position left
  have small : value.toNat % 2 ^ share position left < 2 ^ share position left :=
    Nat.mod_lt _ (Nat.two_pow_pos _)
  have byteSized : 2 ^ share position left ≤ 2 ^ 8 := Nat.pow_le_pow_right (by omega) (by omega)
  have chunk : (value &&& mask (share position left)).toUInt8.toNat
      = value.toNat % 2 ^ share position left := by
    rw [UInt64.toNat_toUInt8, toNat_and_mask value (by omega),
      Nat.mod_eq_of_lt (Nat.lt_of_lt_of_le small byteSized)]
  rw [toNat_or_byte zeros (by rw [chunk]; exact small) (by omega) inside, chunk]

/-- Setting zeros of a buffer to a value adds the value, moved to where it stands. -/
theorem decode_put (bytes : List UInt8) (position : Nat) (value : UInt64) (left : Nat)
    (wide : left ≤ 64) (room : position + left ≤ 8 * bytes.length)
    (zeros : decode bytes < 2 ^ position) :
    decode (put bytes position value left)
      = decode bytes + value.toNat % 2 ^ left * 2 ^ position := by
  induction bytes generalizing position value left with
  | nil =>
    have none : left = 0 := by simp at room; omega
    simp [put, none, Nat.mod_one]
  | cons byte rest ih =>
    rw [List.length_cons] at room
    rw [put]
    by_cases none : left = 0
    · simp [none, Nat.mod_one]
    · rw [if_neg none]
      by_cases behind : 8 ≤ position
      · obtain ⟨further, rfl⟩ := Nat.exists_eq_add_of_le behind
        have small := byte.toNat_lt
        have clear : decode rest < 2 ^ further := by
          rw [decode, Nat.pow_add] at zeros
          omega
        have moved : value.toNat % 2 ^ left * 2 ^ (8 + further)
            = 256 * (value.toNat % 2 ^ left * 2 ^ further) := by
          rw [Nat.pow_add, Nat.mul_left_comm]
        rw [if_pos behind, Nat.add_sub_cancel_left, decode, ih further value left wide (by omega)
          clear, decode, moved]
        omega
      · -- the bytes behind the first one are zeros, and the value goes on at their front
        have inside : position < 8 := by omega
        have power : 2 ^ position ≤ 2 ^ 7 := Nat.pow_le_pow_right (by omega) (by omega)
        rw [decode] at zeros
        have clear : decode rest = 0 := by omega
        have fewer := share_le_left position left
        have others := ih 0 (value >>> (share position left).toUInt64)
          (left - share position left) (by omega)
          (by rcases share_cases position left <;> omega) (by omega)
        have onwards := share_add_rest inside left value.toNat
        have room := share_le_room position left
        rw [toNat_shiftRight_word value (by omega)] at others
        rw [if_neg behind, decode, toNat_put_front inside (by omega) value left, others, decode,
          clear]
        omega

/-- Gathering bits of a buffer adds them to the value, behind the bits it has. -/
theorem toNat_gather (bytes : List UInt8) (position : Nat) (value : UInt64) (filled left : Nat)
    (wide : filled + left ≤ 64) (room : position + left ≤ 8 * bytes.length)
    (zeros : value.toNat < 2 ^ filled) :
    (gather bytes position value filled left).toNat
      = value.toNat + decode bytes / 2 ^ position % 2 ^ left * 2 ^ filled := by
  induction bytes generalizing position value filled left with
  | nil =>
    have none : left = 0 := by simp at room; omega
    simp [gather, none, Nat.mod_one]
  | cons byte rest ih =>
    rw [List.length_cons] at room
    rw [gather]
    by_cases none : left = 0
    · simp [none, Nat.mod_one]
    · rw [if_neg none]
      by_cases behind : 8 ≤ position
      · obtain ⟨further, rfl⟩ := Nat.exists_eq_add_of_le behind
        rw [if_pos behind, Nat.add_sub_cancel_left, ih further value filled left wide
          (by omega) zeros, decode_cons_div]
      · have inside : position < 8 := by omega
        have fewer := share_le_left position left
        have taken := share_le_room position left
        have chunk : ((byte >>> position.toUInt8).toUInt64 &&& mask (share position left)).toNat
            = byte.toNat / 2 ^ position % 2 ^ share position left := by
          rw [toNat_and_mask _ (by omega), UInt8.toNat_toUInt64, toNat_shiftRight_byte byte inside]
        have small : byte.toNat / 2 ^ position % 2 ^ share position left
            < 2 ^ share position left := Nat.mod_lt _ (Nat.two_pow_pos _)
        have longer := toNat_or_word zeros (by rw [chunk]; exact small) (by omega) (by omega)
        rw [chunk] at longer
        have others := ih 0 (value ||| ((byte >>> position.toUInt8).toUInt64
            &&& mask (share position left)) <<< filled.toUInt64)
          (filled + share position left) (left - share position left) (by omega)
          (by rcases share_cases position left <;> omega)
          (by rw [longer]; exact add_mul_two_pow_lt zeros small)
        rw [longer, Nat.pow_zero, Nat.div_one] at others
        rw [if_neg behind, others, decode, front_add_rest inside, Nat.add_mul, Nat.add_assoc,
          Nat.pow_add, Nat.mul_assoc, Nat.mul_comm (2 ^ filled)]

/-! ### Single writes and reads -/

/-- All that was written stands before the position; what comes behind is zeros. -/
structure Writer.Clear (w : Writer) : Prop where
  inside : w.position ≤ 8 * w.size
  zeros : decode w.bytes < 2 ^ w.position

theorem decode_replicate_zero (size : Nat) : decode (List.replicate size 0) = 0 := by
  induction size with
  | zero => rfl
  | succ size ih => simp [List.replicate_succ, decode, ih]

theorem Writer.clear_start (size : Nat) : ({ size } : Writer).Clear :=
  ⟨Nat.zero_le _, by simp [decode_replicate_zero]⟩

/-- A value that finds room is added to the number of the buffer, moved to the position. -/
theorem Writer.write_fits {w : Writer} (clear : w.Clear) (value : UInt64) {bits : Nat}
    (wide : bits ≤ 64) (room : w.position + bits ≤ 8 * w.size) :
    ∃ w', w.write value bits = .ok w' ∧ w'.Clear ∧ w'.size = w.size
      ∧ w'.position = w.position + bits
      ∧ decode w'.bytes = decode w.bytes + low bits value * 2 ^ w.position := by
  by_cases none : bits = 0
  · subst none
    refine ⟨w, by rw [write, if_pos rfl], clear, rfl, rfl, ?_⟩
    have nothing : low 0 value = 0 := Nat.mod_one _
    rw [nothing, Nat.zero_mul, Nat.add_zero]
  · have added : decode (put w.bytes w.position (value &&& mask bits) bits)
        = decode w.bytes + low bits value * 2 ^ w.position := by
      rw [decode_put w.bytes w.position _ bits wide (w.length_bytes.symm ▸ room) clear.zeros,
        toNat_and_mask value wide, Nat.mod_mod]
      rfl
    have below : low bits value < 2 ^ bits := Nat.mod_lt _ (Nat.two_pow_pos bits)
    rw [write, if_neg none, if_neg (by omega), if_neg (by omega)]
    refine ⟨_, rfl, ⟨room, ?_⟩, rfl, rfl, added⟩
    show decode (put w.bytes w.position (value &&& mask bits) bits) < 2 ^ (w.position + bits)
    rw [added]
    exact add_mul_two_pow_lt clear.zeros below

/-- A read inside the bytes brings the bits that stand there. -/
theorem Reader.read_fits (r : Reader) {bits : Nat} (wide : bits ≤ 64)
    (room : r.position + bits ≤ 8 * r.bytes.length) :
    r.read bits = .ok ((decode r.bytes / 2 ^ r.position % 2 ^ bits).toUInt64,
      { r with position := r.position + bits }) := by
  by_cases none : bits = 0
  · subst none
    rw [read, if_pos rfl, Nat.pow_zero, Nat.mod_one]
    rfl
  · have brought := toNat_gather r.bytes r.position 0 0 bits (by omega) room (by decide)
    have value : gather r.bytes r.position 0 0 bits
        = (decode r.bytes / 2 ^ r.position % 2 ^ bits).toUInt64 := by
      simp only [UInt64.toNat_zero, Nat.zero_add, Nat.pow_zero, Nat.mul_one] at brought
      rw [← brought]
      exact (UInt64.ofNat_toNat).symm
    rw [read, if_neg none, if_neg (by omega), if_neg (by omega), value]

end NeighborGraph.Bits
