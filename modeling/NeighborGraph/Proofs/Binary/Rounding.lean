import NeighborGraph.Proofs.Binary.Nearest
import NeighborGraph.Proofs.Similarity.Counts

/-!
# Rounding to 53 bits

The floating-point operations work out a few bits more than they keep, and two marks for the rest: the
first bit that was dropped and whether any other one was set.  `Holds` says which fraction a
significand with these marks can stand for.  Dropping one more bit halves the fraction
(`Holds.shiftRight`), and rounding the significand rounds the fraction (`Holds.rounded`), so the
rounded result of an operation is the number nearest to its exact one (`exists_round`).
-/

namespace NeighborGraph.Nearest

open Float.Model (Format UnpackedFloat totalExponent)
open Float.Model.UnpackedFloat

/-- The fractions that a significand and the two marks of its dropped bits can stand for. -/
def Holds (m : ExtendedMantissa) (r : ℚ) : Prop :=
  match m.roundBit, m.stickyBit with
  | false, false => r = m.mantissa
  | false, true => (m.mantissa : ℚ) < r ∧ r < m.mantissa + 1 / 2
  | true, false => r = m.mantissa + 1 / 2
  | true, true => (m.mantissa : ℚ) + 1 / 2 < r ∧ r < m.mantissa + 1

variable {m : ExtendedMantissa} {r : ℚ}

theorem Holds.bounds (h : Holds m r) : (m.mantissa : ℚ) ≤ r ∧ r < m.mantissa + 1 := by
  obtain ⟨m, first, others⟩ := m
  cases first <;> cases others <;> simp only [Holds] at h ⊢ <;> constructor <;> linarith

theorem Holds.shiftRightOne (h : Holds m r) : Holds m.shiftRightOne (r / 2) := by
  obtain ⟨m, first, others⟩ := m
  have halves : (m : ℚ) = 2 * (m / 2 : ℕ) + (m % 2 : ℕ) := by exact_mod_cast (Nat.div_add_mod m 2).symm
  rcases Nat.mod_two_eq_zero_or_one m with even | odd
  · simp only [even] at halves
    cases first <;> cases others <;>
      simp [Holds, ExtendedMantissa.shiftRightOne, even] at h ⊢ <;>
      (try constructor) <;> linarith
  · simp only [odd] at halves
    cases first <;> cases others <;>
      simp [Holds, ExtendedMantissa.shiftRightOne, odd] at h ⊢ <;>
      (try constructor) <;> linarith

theorem Holds.shiftRight (h : Holds m r) (k : ℕ) : Holds (m >>> k) (r / 2 ^ k) := by
  induction k with
  | zero => simpa [HShiftRight.hShiftRight, Nat.repeat] using h
  | succ k ih =>
    show Holds (m >>> k).shiftRightOne (r / 2 ^ (k + 1))
    rw [pow_succ, div_mul_eq_div_div]
    exact ih.shiftRightOne

theorem Holds.rounded (h : Holds m r) : Rounded r m.roundedMantissa := by
  obtain ⟨m, first, others⟩ := m
  cases first with
  | false =>
    cases others with
    | false =>
      rw [show r = m from h]
      exact rounded_self m
    | true =>
      have h : (m : ℚ) < r ∧ r < m + 1 / 2 := h
      show Rounded r m
      exact rounded_of_near (by linarith [h.1]) h.2
  | true =>
    cases others with
    | false =>
      show Rounded r (m + m % 2)
      replace h : r = m + 1 / 2 := h
      rcases Nat.mod_two_eq_zero_or_one m with even | odd
      · rw [even]
        exact rounded_of_even (by push_cast; linarith) (by push_cast; linarith) even
      · rw [odd]
        exact rounded_of_even (by push_cast; linarith) (by push_cast; linarith) (by omega)
    | true =>
      show Rounded r (m + 1)
      have h : (m : ℚ) + 1 / 2 < r ∧ r < m + 1 := h
      exact rounded_of_near (by push_cast; linarith [h.1]) (by push_cast; linarith [h.2])

/-! ### Results -/

/-- A finite number in parts. -/
def parts (sign : Sign) (m : ℕ) (t : ℤ) : UnpackedFloat :=
  if h : m = 0 then .zero sign else .finite sign m t (Nat.pos_of_ne_zero h)

/-- The exponent that a number with the leading bit of `m * 2 ^ e` has. -/
def target (m : ℕ) (e : ℤ) : ℤ := max (m.log2 + e - 52) (-1074)

theorem targetExponent_eq (m : ℕ) (e : ℤ) :
    Format.binary64.targetExponent (totalExponent m e) = target m e := by
  simp only [Format.targetExponent, totalExponent, Format.mantissaBits, Format.minExponent, target]
  omega

theorem shiftToTargetExponent_target (m : ℕ) (e : ℤ) (accuracy : Accuracy) :
    shiftToTargetExponent Format.binary64 m e accuracy =
      (ExtendedMantissa.ofMantissaAndAccuracy m accuracy >>> (target m e - e).toNat,
        e + (target m e - e).toNat) := by
  simp only [shiftToTargetExponent, shiftToExponent, targetExponent_eq]

variable {q : ℚ} {e t : ℤ} {m : ℕ} {accuracy : Accuracy}

/-- What is rounded has a leading bit for its exponent. -/
theorem Holds.fits (h : Holds (ExtendedMantissa.ofMantissaAndAccuracy m accuracy) (q / 2 ^ e))
    (ready : e ≤ target m e) : Fits q (target m e) := by
  have unit := two_zpow_pos e
  have bounds := h.bounds
  rw [Counts.mantissa_ofMantissaAndAccuracy, le_div_iff₀ unit, div_lt_iff₀ unit] at bounds
  refine ⟨le_max_right _ _, ?_, ?_⟩
  · rcases max_choice (m.log2 + e - 52) (-1074) with high | least
    · right
      have some : m ≠ 0 := by
        rintro rfl
        simp only [target, Nat.log2_zero] at ready high
        omega
      have leading : (2 : ℚ) ^ m.log2 ≤ m := by exact_mod_cast Nat.log2_self_le some
      calc (2 ^ 52 * 2 ^ target m e : ℚ) = 2 ^ m.log2 * 2 ^ e := by
            rw [← two_zpow_add, ← two_zpow_add, target, high]
            congr 1
            push_cast
            omega
        _ ≤ m * 2 ^ e := mul_le_mul_of_nonneg_right leading unit.le
        _ ≤ q := bounds.1
    · exact .inl least
  · have leading : (m : ℚ) + 1 ≤ 2 ^ (m.log2 + 1) := by exact_mod_cast Nat.lt_log2_self
    calc q < (m + 1) * 2 ^ e := bounds.2
      _ ≤ 2 ^ (m.log2 + 1) * 2 ^ e := mul_le_mul_of_nonneg_right leading unit.le
      _ = 2 ^ (e + (m.log2 + 1 : ℕ)) := (two_zpow_add e _).symm
      _ ≤ 2 ^ (target m e + (53 : ℕ)) := two_zpow_le (by simp only [target]; omega)
      _ = 2 ^ 53 * 2 ^ target m e := two_zpow_add _ _

/-- A significand of 53 bits stays where it is. -/
theorem shift_narrow (narrow : m < 2 ^ 53) (least : -1074 ≤ t) :
    shiftToTargetExponent Format.binary64 m t .exact = (⟨m, false, false⟩, t) := by
  have width : m.log2 ≤ 52 := by
    by_cases zero : m = 0
    · simp [zero]
    · exact Nat.le_of_lt_succ ((Nat.log2_lt zero).mpr narrow)
  have stays : (target m t - t).toNat = 0 := by
    simp only [target]
    omega
  rw [shiftToTargetExponent_target, stays]
  simp [HShiftRight.hShiftRight, Nat.repeat, ExtendedMantissa.ofMantissaAndAccuracy]

/-- A significand that was carried up to 54 bits goes to the next exponent. -/
theorem shift_carried (least : -1074 ≤ t) :
    shiftToTargetExponent Format.binary64 (2 ^ 53) t .exact = (⟨2 ^ 52, false, false⟩, t + 1) := by
  have width : Nat.log2 (2 ^ 53) = 53 := Nat.log2_two_pow
  have step : (target (2 ^ 53) t - t).toNat = 1 := by
    simp only [target, width]
    omega
  rw [shiftToTargetExponent_target, step]
  rfl

theorem roundWithAccuracy_parts (sign : Sign) (m : ℕ) (e : ℤ) (accuracy : Accuracy) :
    roundWithAccuracy Format.binary64 sign m e accuracy =
      let cut := shiftToTargetExponent Format.binary64 m e accuracy
      let carried := shiftToTargetExponent Format.binary64 cut.1.roundedMantissa cut.2 .exact
      parts sign carried.1.mantissa carried.2 := rfl

/-- The result of rounding is the nearest number, in parts. -/
theorem exists_round (sign : Sign)
    (h : Holds (ExtendedMantissa.ofMantissaAndAccuracy m accuracy) (q / 2 ^ e))
    (ready : e ≤ target m e) :
    ∃ m' t, Canonical m' t ∧ IsNearest q (m' * 2 ^ t) ∧
      roundWithAccuracy Format.binary64 sign m e accuracy = parts sign m' t := by
  have fits := h.fits ready
  have exponent : e + (target m e - e).toNat = target m e := by omega
  have kept := h.shiftRight (target m e - e).toNat
  have scaled : q / 2 ^ e / 2 ^ (target m e - e).toNat = q / 2 ^ target m e := by
    rw [div_div, mul_comm, ← two_zpow_add, exponent]
  rw [scaled] at kept
  have nearest : Rounds q _ (target m e) := ⟨fits, kept.rounded⟩
  rw [roundWithAccuracy_parts, shiftToTargetExponent_target m, exponent]
  dsimp only
  generalize (ExtendedMantissa.ofMantissaAndAccuracy m accuracy
    >>> (target m e - e).toNat).roundedMantissa = rounded at nearest ⊢
  generalize target m e = t at fits nearest ⊢
  rcases nearest.le_width.lt_or_eq with narrow | rfl
  · rw [shift_narrow narrow fits.least]
    exact ⟨rounded, t, ⟨narrow, fits.least, fits.low.imp_right nearest.full⟩,
      ⟨rounded, t, nearest, rfl⟩, rfl⟩
  · rw [shift_carried fits.least]
    refine ⟨2 ^ 52, t + 1, ⟨by norm_num, ?_, .inr le_rfl⟩, ⟨2 ^ 53, t, nearest, ?_⟩, rfl⟩
    · have := fits.least
      omega
    · rw [show t + 1 = t + (1 : ℕ) by rfl, two_zpow_add]
      push_cast
      ring

end NeighborGraph.Nearest
