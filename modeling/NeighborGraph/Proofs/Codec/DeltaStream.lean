import NeighborGraph.Codec.DeltaStream
import NeighborGraph.Proofs.Codec.VarLong

/-!
# Delta streams are read back

`ZigZag.decode` undoes `ZigZag.encode` on every signed step, so the step from one word to the next
leads there, whatever the two words are (`advance_step`).  From that, reading takes one spelled step
at a time (`readFrom_encode`), and a call that asks for as many words as the front of a stream holds
stops right behind them, with the last of them as its running total (`readFrom_encodeFrom`).  A call
that asks for more gets them all when nothing comes behind (`readFrom_encodeFrom_append`), which makes
a whole stream come back in any slots that have room for it (`append_reads_back`).
-/

namespace NeighborGraph

/-- The last word of a sequence that follows `previous`. -/
def lastFrom (previous : UInt64) (words : List UInt64) : UInt64 := words.getLast?.getD previous

theorem lastFrom_cons (previous word : UInt64) (words : List UInt64) :
    lastFrom previous (word :: words) = lastFrom word words := by
  rw [lastFrom, lastFrom, List.getLast?_cons, Option.getD_some]

/-! ### Signed steps -/

namespace ZigZag

theorem toBitVec_encode (step : Int64) :
    (encode step).toBitVec = step.toBitVec <<< 1 ^^^ step.toBitVec.sshiftRight 63 := rfl

theorem toBitVec_decode (word : UInt64) :
    (decode word).toBitVec = word.toBitVec >>> 1 ^^^ -(word.toBitVec &&& 1#64) := rfl

theorem and_one (x : BitVec 64) : x &&& 1#64 = bif x.getLsbD 0 then 1#64 else 0#64 := by
  apply BitVec.eq_of_getLsbD_eq
  intro j hj
  rw [BitVec.getLsbD_and, BitVec.getLsbD_one]
  cases hx : x.getLsbD 0 <;> cases j <;> simp_all

/-- The lowest bit, spread over the whole word. -/
theorem getLsbD_neg_and_one (x : BitVec 64) {i : Nat} (h : i < 64) :
    (-(x &&& 1#64)).getLsbD i = x.getLsbD 0 := by
  rw [and_one]
  cases x.getLsbD 0 with
  | false => simp
  | true =>
    have ones : -1#64 = BitVec.allOnes 64 := rfl
    rw [cond_true, ones, BitVec.getLsbD_allOnes, decide_eq_true h]

/-- A signed step survives being made a word. -/
theorem decode_encode (step : Int64) : decode (encode step) = step := by
  apply Int64.toBitVec_inj.mp
  rw [toBitVec_decode, toBitVec_encode]
  apply BitVec.eq_of_getLsbD_eq
  intro i hi
  rw [BitVec.getLsbD_xor, getLsbD_neg_and_one _ hi]
  simp only [BitVec.getLsbD_ushiftRight, BitVec.getLsbD_xor, BitVec.getLsbD_shiftLeft,
    BitVec.getLsbD_sshiftRight]
  grind

/-- Every word is the word of the signed step it stands for. -/
theorem encode_decode (word : UInt64) : encode (decode word) = word := by
  apply UInt64.toBitVec_inj.mp
  rw [toBitVec_encode, toBitVec_decode]
  apply BitVec.eq_of_getLsbD_eq
  intro i hi
  have sign : ∀ j < 64, (-(word.toBitVec &&& 1#64)).getLsbD j = word.toBitVec.getLsbD 0 :=
    fun j hj => getLsbD_neg_and_one _ hj
  simp only [BitVec.getLsbD_xor, BitVec.getLsbD_shiftLeft, BitVec.getLsbD_sshiftRight,
    BitVec.getLsbD_ushiftRight, BitVec.msb_eq_getLsbD_last]
  grind

end ZigZag

namespace DeltaStream

/-- A step leads from one word to the next. -/
theorem advance_step (previous word : UInt64) : advance previous (step previous word) = word := by
  rw [advance, step, ZigZag.decode_encode, UInt64.toUInt64_toInt64, UInt64.add_comm,
    UInt64.sub_add_cancel]

/-- Reading takes the groups of a word in one go. -/
theorem readFrom_groups (map : UInt64 → UInt64) (origin more : Nat) (w : UInt64)
    (rest : List UInt8) (slots offset count start shift : Nat) (word running : UInt64)
    (room : shift + 7 * more = 63) (fits : w.toNat < 2 * Nat.pow 128 more) :
    readFrom map origin (VarLong.groups more w ++ rest) (slots + 1) offset count
        ⟨start, shift, word⟩ running
      = (readFrom map origin rest slots (offset + (VarLong.groups more w).length) (count + 1)
          ⟨offset + (VarLong.groups more w).length, 0, 0⟩
          (advance running (word ||| w <<< shift.toUInt64))).cons
        (map (advance running (word ||| w <<< shift.toUInt64))) := by
  induction more generalizing w offset shift word with
  | zero =>
    have small := VarLong.small_of_fits_one fits
    rw [VarLong.groups_of_small small, List.singleton_append, readFrom]
    simp only [VarLong.overflows_last room fits, VarLong.isLast_last small,
      VarLong.payload_last small, Bool.false_eq_true, if_false, if_true]
    rfl
  | succ more ih =>
    by_cases small : w < 0x80
    · rw [VarLong.groups_of_small small, List.singleton_append, readFrom]
      simp only [VarLong.overflows_last room fits, VarLong.isLast_last small,
        VarLong.payload_last small, Bool.false_eq_true, if_false, if_true]
      rfl
    · have high := ih (w >>> 7) (offset + 1) (shift + 7)
        (word ||| (w &&& 0x7f) <<< shift.toUInt64) (by omega) (VarLong.high_groups_fit fits)
      have length : offset + 1 + (VarLong.groups more (w >>> 7)).length
          = offset + ((VarLong.groups more (w >>> 7)).length + 1) := by omega
      rw [VarLong.groups, if_neg small, List.cons_append, readFrom]
      simp only [VarLong.overflows_of_lt (show shift < 63 by omega), VarLong.isLast_group,
        VarLong.payload_group, Bool.false_eq_true, if_false]
      rw [high, UInt64.or_assoc, VarLong.low_or_high w (by omega), length]
      rfl

/-- Reading takes one spelled step and goes on from the word it leads to. -/
theorem readFrom_encode (map : UInt64 → UInt64) (origin : Nat) (previous word : UInt64)
    (rest : List UInt8) (slots offset count : Nat) :
    let spelled := VarLong.encode (step previous word)
    readFrom map origin (spelled ++ rest) (slots + 1) offset count ⟨offset, 0, 0⟩ previous
      = (readFrom map origin rest slots (offset + spelled.length) (count + 1)
          ⟨offset + spelled.length, 0, 0⟩ word).cons (map word) := by
  intro spelled
  have whole := readFrom_groups map origin (VarLong.maxBytes - 1) (step previous word) rest slots
    offset count offset 0 0 previous rfl (VarLong.fits_ten _)
  have value : (0 : UInt64) ||| step previous word <<< (0 : Nat).toUInt64 = step previous word := by
    simp
  rw [value, advance_step] at whole
  exact whole

/-! ### Sequences -/

theorem encodeFrom_append (previous : UInt64) (front back : List UInt64) :
    encodeFrom previous (front ++ back)
      = encodeFrom previous front ++ encodeFrom (lastFrom previous front) back := by
  induction front generalizing previous with
  | nil => rfl
  | cons word front ih =>
    rw [List.cons_append, encodeFrom, encodeFrom, ih, lastFrom_cons, List.append_assoc]

/-- Reading the words at the front of a stream: as many as are asked for, or more of them when nothing
comes behind. -/
theorem readFrom_encodeFrom_append (map : UInt64 → UInt64) (origin : Nat) (previous : UInt64)
    (words : List UInt64) {rest : List UInt8} {more : Nat} (ends : more = 0 ∨ rest = [])
    (offset count : Nat) :
    readFrom map origin (encodeFrom previous words ++ rest) (words.length + more) offset count
        ⟨offset, 0, 0⟩ previous
      = ⟨words.map map,
          ⟨offset + (encodeFrom previous words).length, lastFrom previous words⟩,
          .ok (count + words.length)⟩ := by
  induction words generalizing previous offset count with
  | nil =>
    rcases ends with rfl | rfl
    · cases rest <;> rfl
    · rfl
  | cons word words ih =>
    have length : offset + (VarLong.encode (step previous word)).length
          + (encodeFrom word words).length
        = offset + (encodeFrom previous (word :: words)).length := by
      rw [encodeFrom, List.length_append]
      omega
    rw [encodeFrom, List.append_assoc, List.length_cons, Nat.add_right_comm, readFrom_encode, ih,
      Reading.cons, lastFrom_cons, List.map_cons]
    rw [← encodeFrom, length, Nat.add_right_comm, Nat.add_assoc]

/-- Reading as many words as are asked for, from the front of a longer stream. -/
theorem readFrom_encodeFrom (map : UInt64 → UInt64) (origin : Nat) (previous : UInt64)
    (words : List UInt64) (rest : List UInt8) (offset count : Nat) :
    readFrom map origin (encodeFrom previous words ++ rest) words.length offset count
        ⟨offset, 0, 0⟩ previous
      = ⟨words.map map,
          ⟨offset + (encodeFrom previous words).length, lastFrom previous words⟩,
          .ok (count + words.length)⟩ :=
  readFrom_encodeFrom_append map origin previous words (.inl rfl) offset count

/-- A whole stream is read into any number of slots that has room for its words. -/
theorem readAll_encode (map : UInt64 → UInt64) (words : List UInt64) {slots : Nat}
    (room : words.length ≤ slots) :
    readAll map (encode words) (encode words).length slots = .ok (words.map map) := by
  obtain ⟨more, rfl⟩ := Nat.exists_eq_add_of_le room
  have whole := readFrom_encodeFrom_append map 0 0 words (.inr rfl : more = 0 ∨ [] = []) 0 0
  rw [List.append_nil] at whole
  simp only [readAll, read, Nat.lt_irrefl, if_false, List.take_length, List.drop_zero]
  rw [encode, whole]
  simp

/-- Any sequence of words comes back: written behind any buffer and read into slots with room for it,
each word is passed through the map in its place, and further slots are left as they were. -/
theorem append_reads_back (map : UInt64 → UInt64) (before : List UInt8) (words slots : List UInt64)
    (room : words.length ≤ slots.length) :
    let appended := append before words
    appended.buffer.take before.length = before
      ∧ appended.buffer.length = before.length + appended.written
      ∧ readInto map (appended.buffer.drop before.length) appended.written slots
          = .ok (words.length, words.map map ++ slots.drop words.length)
      ∧ (∀ step, ZigZag.decode (ZigZag.encode step) = step)
      ∧ ∀ word, ZigZag.encode (ZigZag.decode word) = word := by
  have written : (before ++ encode words).length - before.length = (encode words).length := by
    rw [List.length_append]
    omega
  intro appended
  have shape : appended = ⟨before ++ encode words, (encode words).length⟩ := by
    rw [← written]
    rfl
  rw [shape]
  refine ⟨List.take_left, List.length_append, ?_, ZigZag.decode_encode, ZigZag.encode_decode⟩
  show readInto map ((before ++ encode words).drop before.length) (encode words).length slots = _
  rw [List.drop_left, readInto, readAll_encode map words room]
  simp [Except.map, fill]

/-- A jump down from the largest word and one over half the range, behind a byte, with a slot to
spare. -/
theorem append_reads_back_jumps :
    ([0xffffffffffffffff, 3, 0x8000000000000000] : List UInt64).length ≤ 4
      ∧ (append [7] [0xffffffffffffffff, 3, 0x8000000000000000]).buffer.length = 13
      ∧ readInto (· + 1)
          ((append [7] [0xffffffffffffffff, 3, 0x8000000000000000]).buffer.drop 1)
          (append [7] [0xffffffffffffffff, 3, 0x8000000000000000]).written [9, 9, 9, 9]
        = .ok (3, [0, 4, 0x8000000000000001, 9]) := by
  obtain ⟨-, -, read, -⟩ := append_reads_back (· + 1) [7]
    [0xffffffffffffffff, 3, 0x8000000000000000] [9, 9, 9, 9] (by decide)
  exact ⟨by decide, by decide +kernel, read⟩

end DeltaStream

end NeighborGraph
