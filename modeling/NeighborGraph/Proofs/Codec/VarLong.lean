import NeighborGraph.Codec.VarLong

/-!
# Var-longs are read back

A word is cut into groups of seven bits, and `VarLong.decode` puts the groups together again.  The
decoder keeps the groups so far in a word and the bit position of the next one, so the statements
here start at any position: `low_or_high` is the step over one group, and `decodeFrom_groups` the
whole way.

A word that still has `more + 1` groups to come starts at bit `shift` with `shift + 7 * more = 63`
and is below `2 * 128 ^ more`; that is what keeps its last group, the tenth one included, inside 64
bits.
-/

namespace NeighborGraph.VarLong

/-! ### Single bytes -/

theorem byte_of_small : ∀ b : Fin 128,
    (UInt8.ofNat b ||| terminator) &&& 0x7f = UInt8.ofNat b
      ∧ UInt8.ofNat b &&& 0x7f = UInt8.ofNat b
      ∧ isLast (UInt8.ofNat b ||| terminator) = true ∧ isLast (UInt8.ofNat b) = false := by
  decide +kernel

/-- A word below 128 is the number of its byte. -/
theorem toUInt8_of_small {w : UInt64} (h : w < 0x80) :
    ∃ b : Fin 128, w.toUInt8 = UInt8.ofNat b ∧ (UInt8.ofNat b).toUInt64 = w := by
  have small : w.toNat < 128 := h
  refine ⟨⟨w.toNat, small⟩, ?_, ?_⟩
  · apply UInt8.toNat_inj.mp
    simp
  · apply UInt64.toNat_inj.mp
    simp
    omega

theorem and_seven_bits (w : UInt64) : (w &&& 0x7f).toNat = w.toNat % 128 := by
  have mask : (0x7f : UInt64).toNat = 2 ^ 7 - 1 := rfl
  rw [UInt64.toNat_and, mask, Nat.and_two_pow_sub_one_eq_mod]

theorem shift_seven_bits (w : UInt64) : (w >>> 7).toNat = w.toNat / 128 := by
  rw [UInt64.toNat_shiftRight]
  exact Nat.shiftRight_eq_div_pow _ _

theorem low_group_small (w : UInt64) : w &&& 0x7f < 0x80 := by
  show (w &&& 0x7f).toNat < 128
  rw [and_seven_bits]
  omega

theorem isLast_last {w : UInt64} (h : w < 0x80) : isLast (w.toUInt8 ||| terminator) = true := by
  obtain ⟨b, hb, -⟩ := toUInt8_of_small h
  rw [hb]
  exact (byte_of_small b).2.2.1

theorem isLast_group (w : UInt64) : isLast (w &&& 0x7f).toUInt8 = false := by
  obtain ⟨b, hb, -⟩ := toUInt8_of_small (low_group_small w)
  rw [hb]
  exact (byte_of_small b).2.2.2

theorem payload_last {w : UInt64} (h : w < 0x80) (shift : Nat) :
    payload shift (w.toUInt8 ||| terminator) = w <<< shift.toUInt64 := by
  obtain ⟨b, hb, back⟩ := toUInt8_of_small h
  rw [payload, hb, (byte_of_small b).1, back]

theorem payload_group (w : UInt64) (shift : Nat) :
    payload shift (w &&& 0x7f).toUInt8 = (w &&& 0x7f) <<< shift.toUInt64 := by
  obtain ⟨b, hb, back⟩ := toUInt8_of_small (low_group_small w)
  rw [payload, hb, (byte_of_small b).2.1, back]

theorem overflows_of_lt {shift : Nat} (h : shift < 63) (byte : UInt8) :
    overflows shift byte = false := by
  have below : ¬63 < shift := by omega
  have other : shift ≠ 63 := by omega
  simp [overflows, below, other]

/-- The tenth byte of a word brings its topmost bit only. -/
theorem overflows_top {w : UInt64} (h : w.toNat < 2) :
    overflows 63 (w.toUInt8 ||| terminator) = false := by
  have top : w = 0 ∨ w = 1 := by
    rcases Nat.lt_succ_iff_lt_or_eq.mp h with h | h
    · exact .inl (UInt64.toNat_inj.mp (by simpa using h))
    · exact .inr (UInt64.toNat_inj.mp (by simpa using h))
  rcases top with rfl | rfl <;> decide

/-! ### Groups -/

theorem toNat_shift {shift : Nat} (h : shift < 64) : shift.toUInt64.toNat = shift := by
  rw [Nat.toUInt64, UInt64.toNat_ofNat']
  exact Nat.mod_eq_of_lt (by omega)

/-- The lowest group and the groups above it make up the word. -/
theorem low_or_high (w : UInt64) {shift : Nat} (h : shift + 7 < 64) :
    (w &&& 0x7f) <<< shift.toUInt64 ||| (w >>> 7) <<< (shift + 7).toUInt64
      = w <<< shift.toUInt64 := by
  apply UInt64.toNat_inj.mp
  rw [UInt64.toNat_or, UInt64.toNat_shiftLeft, UInt64.toNat_shiftLeft, UInt64.toNat_shiftLeft,
    toNat_shift (show shift < 64 by omega), toNat_shift h, and_seven_bits, shift_seven_bits,
    Nat.mod_eq_of_lt (show shift < 64 by omega), Nat.mod_eq_of_lt h]
  have low : w.toNat % 128 = w.toNat % 2 ^ 7 := rfl
  have high : w.toNat / 128 = w.toNat >>> 7 := (Nat.shiftRight_eq_div_pow w.toNat 7).symm
  rw [low, high]
  -- bit by bit: each bit of the word comes from exactly one of the two parts
  apply Nat.eq_of_testBit_eq
  intro i
  simp only [Nat.testBit_or, Nat.testBit_mod_two_pow, Nat.testBit_shiftLeft,
    Nat.testBit_shiftRight]
  grind

/-- A word that has room from bit `shift` on is not cut off by its last byte. -/
theorem overflows_last {more shift : Nat} {w : UInt64} (room : shift + 7 * more = 63)
    (fits : w.toNat < 2 * Nat.pow 128 more) :
    overflows shift (w.toUInt8 ||| terminator) = false := by
  cases more with
  | zero =>
    have top : shift = 63 := by omega
    rw [top]
    exact overflows_top fits
  | succ more => exact overflows_of_lt (by omega) _

theorem groups_of_small {w : UInt64} (h : w < 0x80) (more : Nat) :
    groups more w = [w.toUInt8 ||| terminator] := by
  cases more with
  | zero => rfl
  | succ more => rw [groups, if_pos h]

theorem high_groups_fit {more : Nat} {w : UInt64} (fits : w.toNat < 2 * Nat.pow 128 (more + 1)) :
    (w >>> 7).toNat < 2 * Nat.pow 128 more := by
  have power : Nat.pow 128 (more + 1) = Nat.pow 128 more * 128 := rfl
  rw [shift_seven_bits]
  omega

theorem small_of_fits_one {w : UInt64} (fits : w.toNat < 2 * Nat.pow 128 0) : w < 0x80 := by
  show w.toNat < 128
  have one : Nat.pow 128 0 = 1 := rfl
  omega

/-! ### Whole words -/

/-- Groups that start at bit `shift` are read back as the word, whatever follows them. -/
theorem decodeFrom_groups (more : Nat) (w : UInt64) (rest : List UInt8) (shift : Nat)
    (word : UInt64) (used : Nat) (room : shift + 7 * more = 63)
    (fits : w.toNat < 2 * Nat.pow 128 more) :
    decodeFrom (groups more w ++ rest) shift word used
      = .ok (word ||| w <<< shift.toUInt64, used + (groups more w).length) := by
  induction more generalizing w shift word used with
  | zero =>
    have small := small_of_fits_one fits
    rw [groups_of_small small, List.singleton_append, decodeFrom, overflows_last room fits,
      isLast_last small, payload_last small]
    rfl
  | succ more ih =>
    by_cases small : w < 0x80
    · rw [groups_of_small small, List.singleton_append, decodeFrom, overflows_last room fits,
        isLast_last small, payload_last small]
      rfl
    · have high := ih (w >>> 7) (shift + 7) (word ||| (w &&& 0x7f) <<< shift.toUInt64) (used + 1)
        (by omega) (high_groups_fit fits)
      rw [groups, if_neg small, List.cons_append, decodeFrom, overflows_of_lt (by omega),
        isLast_group, payload_group]
      simp only [Bool.false_eq_true, if_false]
      rw [high, UInt64.or_assoc, low_or_high w (by omega), List.length_cons,
        Nat.add_right_comm, Nat.add_assoc]

/-- Ten groups hold any word. -/
theorem fits_ten (w : UInt64) : w.toNat < 2 * Nat.pow 128 (maxBytes - 1) := w.toNat_lt

/-- A word is read back from its spelling, whatever follows it. -/
theorem decode_encode_append (w : UInt64) (rest : List UInt8) :
    decode (encode w ++ rest) = .ok (w, (encode w).length) := by
  have whole := decodeFrom_groups (maxBytes - 1) w rest 0 0 0 rfl (fits_ten w)
  rw [decode, encode, whole]
  simp

end NeighborGraph.VarLong
