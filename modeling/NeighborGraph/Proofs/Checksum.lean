import Mathlib.Data.Nat.Bitwise
import NeighborGraph.Checksum
import NeighborGraph.LittleEndian

/-!
# The checksum notices short damage

Shifting is linear: the shift of an exclusive or is the exclusive or of the shifts (`shift_xor`), and
only zero is shifted to zero, because the generator has the bit on top that a shift leaves clear
(`shift_eq_zero`).  So two registers that differ stay different over any bytes (`update_xor`).

Up to four bytes at a time go into the register as one little-endian number (`update_eq_shifts`).
From one register, different bytes in a window of that size therefore lead to different registers,
and whatever comes behind the window cannot bring these together again (`ofBytes_ne_of_window`).
-/

namespace NeighborGraph

namespace Checksum

/-! ### One shift -/

theorem toNat_lowBit (x : UInt32) : (x &&& 1).toNat = x.toNat % 2 := by
  have mask : (1 : UInt32).toNat = 2 ^ 1 - 1 := rfl
  rw [UInt32.toNat_and, mask, Nat.and_two_pow_sub_one_eq_mod]

theorem toNat_half (x : UInt32) : (x >>> 1).toNat = x.toNat / 2 := by
  rw [UInt32.toNat_shiftRight]
  exact Nat.shiftRight_eq_div_pow _ _

theorem lowBit_cases (x : UInt32) : x &&& 1 = 0 ∨ x &&& 1 = 1 := by
  have bit := toNat_lowBit x
  rcases Nat.mod_two_eq_zero_or_one x.toNat with even | odd
  · exact .inl (UInt32.toNat_inj.mp (bit.trans even))
  · exact .inr (UInt32.toNat_inj.mp (bit.trans odd))

theorem lowBit_xor (x y : UInt32) : (x ^^^ y) &&& 1 = (x &&& 1) ^^^ (y &&& 1) := by
  apply UInt32.toNat_inj.mp
  simp only [UInt32.toNat_and, UInt32.toNat_xor, Nat.and_xor_distrib_right]

theorem shift_of_even {x : UInt32} (even : x &&& 1 = 0) : shift x = x >>> 1 := by
  rw [shift, even]
  rfl

theorem shift_of_odd {x : UInt32} (odd : x &&& 1 = 1) : shift x = (x >>> 1) ^^^ generator :=
  if_pos odd

/-- What goes into both sides cancels. -/
theorem xor_xor_xor (x y both : UInt32) : (x ^^^ both) ^^^ (y ^^^ both) = x ^^^ y := by
  rw [UInt32.xor_comm y both, UInt32.xor_assoc, ← UInt32.xor_assoc both both, UInt32.xor_self,
    UInt32.zero_xor]

/-- Shifting is linear. -/
theorem shift_xor (x y : UInt32) : shift (x ^^^ y) = shift x ^^^ shift y := by
  have low := lowBit_xor x y
  have high : (x ^^^ y) >>> 1 = (x >>> 1) ^^^ (y >>> 1) := UInt32.shiftRight_xor
  rcases lowBit_cases x with evenX | oddX <;> rcases lowBit_cases y with evenY | oddY
  · rw [evenX, evenY] at low
    rw [shift_of_even evenX, shift_of_even evenY, shift_of_even low, high]
  · rw [evenX, oddY] at low
    rw [shift_of_even evenX, shift_of_odd oddY, shift_of_odd low, high, UInt32.xor_assoc]
  · rw [oddX, evenY] at low
    rw [shift_of_odd oddX, shift_of_even evenY, shift_of_odd low, high]
    ac_rfl
  · rw [oddX, oddY] at low
    rw [shift_of_odd oddX, shift_of_odd oddY, shift_of_even low, high, xor_xor_xor]

/-- Only zero is shifted to zero: the generator has its highest bit set, a halved register has not. -/
theorem shift_eq_zero {x : UInt32} (zero : shift x = 0) : x = 0 := by
  have bit := toNat_lowBit x
  have half := toNat_half x
  rcases lowBit_cases x with even | odd
  · rw [shift_of_even even] at zero
    rw [zero] at half
    rw [even] at bit
    apply UInt32.toNat_inj.mp
    simp only [UInt32.toNat_zero] at *
    omega
  · rw [shift_of_odd odd] at zero
    have top : x >>> 1 = generator := UInt32.xor_eq_zero_iff.mp zero
    have word := x.toNat_lt
    have size : generator.toNat = 0xedb88320 := rfl
    rw [top, size] at half
    omega

/-! ### Shifts and bytes -/

theorem shifts_xor (count : Nat) (x y : UInt32) :
    shifts count (x ^^^ y) = shifts count x ^^^ shifts count y := by
  induction count generalizing x y with
  | zero => rfl
  | succ count ih => rw [shifts, shifts, shifts, shift_xor, ih]

theorem shifts_eq_zero {count : Nat} {x : UInt32} (zero : shifts count x = 0) : x = 0 := by
  induction count generalizing x with
  | zero => exact zero
  | succ count ih => exact shift_eq_zero (ih zero)

theorem shifts_injective {count : Nat} {x y : UInt32} (same : shifts count x = shifts count y) :
    x = y := by
  have zero : shifts count (x ^^^ y) = 0 := by rw [shifts_xor, same, UInt32.xor_self]
  exact UInt32.xor_eq_zero_iff.mp (shifts_eq_zero zero)

theorem shifts_add (count more : Nat) (x : UInt32) :
    shifts (count + more) x = shifts more (shifts count x) := by
  induction count generalizing x with
  | zero => rw [Nat.zero_add, shifts]
  | succ count ih => rw [Nat.succ_add, shifts, shifts, ih]

/-- How two registers differ behind some bytes is how they differed before, shifted. -/
theorem update_xor (register register' : UInt32) (bytes : List UInt8) :
    update register bytes ^^^ update register' bytes
      = shifts (8 * bytes.length) (register ^^^ register') := by
  induction bytes generalizing register register' with
  | nil => rfl
  | cons b bytes ih =>
    have first : step register b ^^^ step register' b = shifts 8 (register ^^^ register') := by
      rw [step, step, ← shifts_xor, xor_xor_xor]
    show update (step register b) bytes ^^^ update (step register' b) bytes = _
    rw [ih, first, List.length_cons, Nat.mul_succ, Nat.add_comm, shifts_add]

/-- Registers that differ stay different, whatever bytes they take in. -/
theorem update_injective {register register' : UInt32} {bytes : List UInt8}
    (same : update register bytes = update register' bytes) : register = register' := by
  have zero := update_xor register register' bytes
  rw [same, UInt32.xor_self] at zero
  exact UInt32.xor_eq_zero_iff.mp (shifts_eq_zero zero.symm)

theorem update_append (register : UInt32) (front back : List UInt8) :
    update register (front ++ back) = update (update register front) back := List.foldl_append

/-! ### Windows of four bytes -/

/-- A number that is even is halved by a shift, so what stands above the lowest bits comes down. -/
theorem shifts_raised {count n : Nat} (fits : 2 ^ count * n < 2 ^ 32) :
    shifts count (UInt32.ofNat (2 ^ count * n)) = UInt32.ofNat n := by
  induction count with
  | zero => rw [Nat.pow_zero, Nat.one_mul, shifts]
  | succ count ih =>
    have double : 2 ^ (count + 1) * n = 2 * (2 ^ count * n) := by
      rw [Nat.pow_succ, Nat.mul_comm (2 ^ count) 2, Nat.mul_assoc]
    rw [double] at fits ⊢
    have value : (UInt32.ofNat (2 * (2 ^ count * n))).toNat = 2 * (2 ^ count * n) :=
      UInt32.toNat_ofNat_of_lt' fits
    have even : UInt32.ofNat (2 * (2 ^ count * n)) &&& 1 = 0 := by
      apply UInt32.toNat_inj.mp
      rw [toNat_lowBit, value]
      simp
    have half : UInt32.ofNat (2 * (2 ^ count * n)) >>> 1 = UInt32.ofNat (2 ^ count * n) := by
      apply UInt32.toNat_inj.mp
      rw [toNat_half, value,
        UInt32.toNat_ofNat_of_lt' (show 2 ^ count * n < 2 ^ 32 by omega)]
      omega
    rw [shifts, shift_of_even even, half, ih (by omega)]

/-- A byte below a number that leaves it room. -/
theorem low_add_high {low : Nat} (small : low < 2 ^ 8) (high : Nat) :
    low + 2 ^ 8 * high = low ^^^ 2 ^ 8 * high := by
  apply Nat.eq_of_testBit_eq
  intro i
  rw [Nat.add_comm, Nat.testBit_two_pow_mul_add _ small, Nat.testBit_xor, Nat.testBit_two_pow_mul]
  by_cases below : i < 8
  · simp [below, Nat.not_le.mpr below]
  · have none : low.testBit i = false :=
      Nat.testBit_lt_two_pow (Nat.lt_of_lt_of_le small (Nat.pow_le_pow_right (by omega) (by omega)))
    simp [below, none]
    omega

/-- Up to four bytes go into the register as one number. -/
theorem update_eq_shifts (register : UInt32) {bytes : List UInt8} (short : bytes.length ≤ 4) :
    update register bytes
      = shifts (8 * bytes.length) (register ^^^ UInt32.ofNat (LittleEndian.decode bytes)) := by
  induction bytes generalizing register with
  | nil => simp [update, shifts, LittleEndian.decode]
  | cons b bytes ih =>
    rw [List.length_cons] at short
    have below : LittleEndian.decode bytes < 256 ^ bytes.length := LittleEndian.decode_lt bytes
    have power : 256 ^ bytes.length ≤ 256 ^ 3 := Nat.pow_le_pow_right (by decide) (by omega)
    have room : 2 ^ 8 * LittleEndian.decode bytes < 2 ^ 32 := by omega
    have parts : UInt32.ofNat (LittleEndian.decode (b :: bytes))
        = b.toUInt32 ^^^ UInt32.ofNat (2 ^ 8 * LittleEndian.decode bytes) := by
      have byte := b.toNat_lt
      apply UInt32.toNat_inj.mp
      rw [UInt32.toNat_xor, UInt8.toNat_toUInt32, UInt32.toNat_ofNat_of_lt' room, LittleEndian.decode,
        ← low_add_high byte]
      exact UInt32.toNat_ofNat_of_lt'
        (show b.toNat + 2 ^ 8 * LittleEndian.decode bytes < 2 ^ 32 by omega)
    calc update register (b :: bytes)
        = update (shifts 8 (register ^^^ b.toUInt32)) bytes := rfl
      _ = shifts (8 * bytes.length)
            (shifts 8 (register ^^^ b.toUInt32) ^^^ UInt32.ofNat (LittleEndian.decode bytes)) :=
          ih _ (by omega)
      _ = shifts (8 * bytes.length) (shifts 8 (register ^^^ b.toUInt32)
            ^^^ shifts 8 (UInt32.ofNat (2 ^ 8 * LittleEndian.decode bytes))) := by
          rw [shifts_raised room]
      _ = shifts (8 * bytes.length)
            (shifts 8 (register ^^^ UInt32.ofNat (LittleEndian.decode (b :: bytes)))) := by
          rw [← shifts_xor, parts, UInt32.xor_assoc]
      _ = shifts (8 * (bytes.length + 1))
            (register ^^^ UInt32.ofNat (LittleEndian.decode (b :: bytes))) := by
          rw [Nat.mul_succ, Nat.add_comm, shifts_add]

/-- Different bytes in a short window lead to different registers. -/
theorem update_window_ne (register : UInt32) {window window' : List UInt8}
    (length : window.length = window'.length) (short : window.length ≤ 4)
    (differ : window ≠ window') : update register window ≠ update register window' := by
  intro same
  rw [update_eq_shifts register short, update_eq_shifts register (length ▸ short), ← length] at same
  have numbers := shifts_injective same
  have power : 256 ^ window.length ≤ 256 ^ 4 := Nat.pow_le_pow_right (by decide) short
  have first : LittleEndian.decode window < 256 ^ window.length := LittleEndian.decode_lt window
  have second : LittleEndian.decode window' < 256 ^ window.length :=
    length ▸ LittleEndian.decode_lt window'
  have words : UInt32.ofNat (LittleEndian.decode window)
      = UInt32.ofNat (LittleEndian.decode window') := by simpa using numbers
  have values := congrArg UInt32.toNat words
  rw [UInt32.toNat_ofNat_of_lt' (show LittleEndian.decode window < 2 ^ 32 by omega),
    UInt32.toNat_ofNat_of_lt' (show LittleEndian.decode window' < 2 ^ 32 by omega)] at values
  exact differ (LittleEndian.eq_of_decode_eq length values)

/-- Bytes that differ in one window of up to four bytes have different checksums. -/
theorem ofBytes_ne_of_window (before after : List UInt8) {window window' : List UInt8}
    (length : window.length = window'.length) (short : window.length ≤ 4)
    (differ : window ≠ window') :
    ofBytes (before ++ (window ++ after)) ≠ ofBytes (before ++ (window' ++ after)) := by
  intro same
  rw [ofBytes, ofBytes, UInt32.not_inj, update_append, update_append, update_append,
    update_append] at same
  exact update_window_ne _ length short differ (update_injective same)

end Checksum

end NeighborGraph
