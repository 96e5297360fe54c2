import Mathlib
import NeighborGraph.Similarity.Sets

/-!
# Counts as floating-point numbers

A set metric is the quotient of two counts, each turned into a floating-point number before the
division.  The quotient is a number unless the divisor is zero (`isNaN_ratio`), because a count from one
to `2 ^ 64` becomes a number that is neither zero nor infinite (`between_ofNat`).

`Between` bounds a number by the powers of two that its leading bit may stand for.  Rounding moves the
leading bit by one place at most (`between_round`), and packing such a number into its bits and back
keeps the bounds (`between_pack`).
-/

namespace NeighborGraph.Counts

open Float.Model (Format UnpackedFloat totalExponent)
open Float.Model.UnpackedFloat

/-- A number with a full significand, whose leading bit stands for a power of two from `2 ^ low` to
`2 ^ high`. -/
def Between (low high : Int) : UnpackedFloat → Prop
  | .finite _ significand exponent _ =>
    significand.log2 = 52 ∧ low ≤ exponent + 52 ∧ exponent + 52 ≤ high
  | _ => False

/-! ### Rounding -/

theorem mantissa_shiftRight (m : ExtendedMantissa) (k : Nat) :
    (m >>> k).mantissa = m.mantissa / 2 ^ k := by
  induction k with
  | zero => simp [HShiftRight.hShiftRight, Nat.repeat]
  | succ k ih =>
    show (m >>> k).mantissa / 2 = m.mantissa / 2 ^ (k + 1)
    rw [ih, Nat.div_div_eq_div_mul, Nat.pow_succ]

/-- Rounding adds one at most. -/
theorem roundedMantissa_bounds (m : ExtendedMantissa) :
    m.mantissa ≤ m.roundedMantissa ∧ m.roundedMantissa ≤ m.mantissa + 1 := by
  rcases m with ⟨m, round, sticky⟩
  cases round <;> cases sticky <;>
    simp only [ExtendedMantissa.roundedMantissa, ExtendedMantissa.accuracy,
      Accuracy.roundToNearestEven] <;> omega

/-- A significand that is too wide is cut to 53 bits. -/
theorem log2_cut {m : Nat} (wide : 52 ≤ m.log2) : (m / 2 ^ (m.log2 - 52)).log2 = 52 := by
  have pos : m ≠ 0 := by
    rintro rfl
    simp at wide
  have bounds : 2 ^ m.log2 ≤ m ∧ m < 2 ^ (m.log2 + 1) := (Nat.log2_eq_iff pos).mp rfl
  have below : 2 ^ 52 ≤ m / 2 ^ (m.log2 - 52) := by
    rw [Nat.le_div_iff_mul_le (Nat.two_pow_pos _), ← Nat.pow_add, Nat.add_sub_cancel' wide]
    exact bounds.1
  have above : m / 2 ^ (m.log2 - 52) < 2 ^ 53 := by
    rw [Nat.div_lt_iff_lt_mul (Nat.two_pow_pos _), ← Nat.pow_add]
    exact lt_of_lt_of_eq bounds.2 (congrArg (2 ^ ·) (by omega))
  exact (Nat.log2_eq_iff (Nat.ne_of_gt (Nat.lt_of_lt_of_le (Nat.two_pow_pos 52) below))).mpr
    ⟨below, above⟩

theorem shiftToTargetExponent_eq {m : Nat} {e : Int} (wide : 52 ≤ m.log2)
    (large : -1022 ≤ m.log2 + e) (accuracy : Accuracy) :
    shiftToTargetExponent Format.binary64 m e accuracy =
      (ExtendedMantissa.ofMantissaAndAccuracy m accuracy >>> (m.log2 - 52),
        e + (m.log2 - 52 : Nat)) := by
  have target : Format.binary64.targetExponent (totalExponent m e) = m.log2 + e - 52 := by
    simp only [Format.targetExponent, totalExponent, Format.mantissaBits, Format.minExponent]
    omega
  have amount : (m.log2 + e - 52 - e).toNat = m.log2 - 52 := by omega
  simp only [shiftToTargetExponent, shiftToExponent, target, amount]

theorem mantissa_ofMantissaAndAccuracy (m : Nat) (accuracy : Accuracy) :
    (ExtendedMantissa.ofMantissaAndAccuracy m accuracy).mantissa = m := by
  cases accuracy with
  | exact => rfl
  | inexact o => cases o <;> rfl

/-- Rounding moves the leading bit by one place at most. -/
theorem between_round {low high : Int} {m : Nat} {e : Int} (wide : 52 ≤ m.log2)
    (small : -1022 ≤ low) (above : low ≤ m.log2 + e) (below : m.log2 + e < high)
    (sign : Sign) (accuracy : Accuracy) :
    Between low high (roundWithAccuracy Format.binary64 sign m e accuracy) := by
  have cut := log2_cut wide
  rw [roundWithAccuracy, shiftToTargetExponent_eq wide (Int.le_trans small above)]
  generalize rounded :
    (ExtendedMantissa.ofMantissaAndAccuracy m accuracy >>> (m.log2 - 52)).roundedMantissa = r
  have bounds := roundedMantissa_bounds
    (ExtendedMantissa.ofMantissaAndAccuracy m accuracy >>> (m.log2 - 52))
  rw [rounded, mantissa_shiftRight, mantissa_ofMantissaAndAccuracy] at bounds
  generalize m / 2 ^ (m.log2 - 52) = significand at cut bounds
  have full : 2 ^ 52 ≤ significand ∧ significand < 2 ^ 53 :=
    (Nat.log2_eq_iff (by rintro rfl; simp at cut)).mp cut
  have pos : r ≠ 0 := by omega
  -- The rounded significand has 53 bits, or 54 when the last of them was carried all the way up.
  have width : 52 ≤ r.log2 ∧ r.log2 ≤ 53 := by
    refine ⟨(Nat.le_log2 pos).mpr (by omega), Nat.le_of_lt_succ ((Nat.log2_lt pos).mpr ?_)⟩
    exact Nat.lt_of_le_of_lt bounds.2 (by omega)
  have cut' := log2_cut width.1
  have pos' : r / 2 ^ (r.log2 - 52) ≠ 0 := by
    intro zero
    simp [zero] at cut'
  have again := shiftToTargetExponent_eq (e := e + (m.log2 - 52 : Nat)) width.1 (by omega) .exact
  simp only [rounded, again, mantissa_shiftRight, mantissa_ofMantissaAndAccuracy, dif_neg pos']
  exact ⟨cut', by omega, by omega⟩

/-! ### Packing -/

theorem isNaN_unpack {b : BitVec Format.binary64.numBits} (h : unpackExponent b ≠ -1#_) :
    (unpack Format.binary64 b).isNaN = false := by
  rw [unpack]
  simp only [if_neg h]
  split
  · split <;> rfl
  · rfl

/-- NaN comes out of the bits exactly if it went in. -/
theorem isNaN_unpack_pack (x : UnpackedFloat) :
    (unpack Format.binary64 (pack Format.binary64 x)).isNaN = x.isNaN := by
  fun_cases pack Format.binary64 x with
  | case1 => rfl
  | case2 s => cases s <;> rfl
  | case3 s => cases s <;> rfl
  | case4 s m e pos biased large => cases s <;> rfl
  | case5 s m e pos width biased small normal =>
    refine isNaN_unpack ?_
    rw [unpackExponent_packComponents]
    intro ones
    have ones := congrArg BitVec.toNat ones
    rw [BitVec.toNat_ofNat] at ones
    replace ones : biased % 2048 = 2047 := ones
    have small : ¬2048 ≤ biased + 1 := small
    omega
  | case6 s m e pos width biased small subnormal =>
    refine isNaN_unpack ?_
    rw [unpackExponent_packComponents]
    decide

/-- The leading bit that is not stored. -/
theorem log2_implicit (v : BitVec 52) : (1#1 ++ v).toNat.log2 = 52 := by
  have number : (1#1 ++ v).toNat = 2 ^ 52 + v.toNat := by
    rw [BitVec.toNat_append, ← Nat.shiftLeft_add_eq_or_of_lt v.isLt, Nat.shiftLeft_eq]
    rfl
  have rest := v.isLt
  rw [number]
  exact (Nat.log2_eq_iff (by omega)).mpr ⟨by omega, by omega⟩

/-- A number of an ordinary size keeps it in the bits. -/
theorem between_pack {low high : Int} {x : UnpackedFloat} (between : Between low high x)
    (small : -1022 ≤ low) (large : high ≤ 1023) :
    Between low high (unpack Format.binary64 (pack Format.binary64 x)) := by
  match x, between with
  | .finite s m e pos, ⟨full, above, below⟩ =>
    have biased : (e + Format.binary64.exponentBias + (52 : Nat)).toNat = (e + 1075).toNat := by
      show (e + 1023 + 52).toNat = _
      omega
    have width : m.log2 + 1 = Format.binary64.mantissaBits := by
      show m.log2 + 1 = 53
      omega
    have packed : pack Format.binary64 (.finite s m e pos) =
        packComponents Format.binary64 s (BitVec.ofNat 11 (e + 1075).toNat) (BitVec.ofNat 52 m) := by
      simp only [pack, biased]
      rw [if_neg (show ¬2048 ≤ (e + 1075).toNat + 1 by omega), if_pos width]
    have place : (BitVec.ofNat 11 (e + 1075).toNat).toNat = (e + 1075).toNat := by
      show (e + 1075).toNat % 2048 = _
      omega
    have finite : BitVec.ofNat 11 (e + 1075).toNat ≠ -1#_ := by
      intro ones
      have ones : (e + 1075).toNat = 2047 := place.symm.trans (congrArg BitVec.toNat ones)
      omega
    have normal : BitVec.ofNat 11 (e + 1075).toNat ≠ 0#_ := by
      intro zeros
      have zeros : (e + 1075).toNat = 0 := place.symm.trans (congrArg BitVec.toNat zeros)
      omega
    rw [packed, unpack]
    simp only [unpackExponent_packComponents, unpackMantissa_packComponents, if_neg finite,
      if_neg normal, place]
    refine ⟨log2_implicit _, ?_, ?_⟩
    · show low ≤ ((e + 1075).toNat : Int) - (1023 + 52) + 52
      omega
    · show ((e + 1075).toNat : Int) - (1023 + 52) + 52 ≤ high
      omega

/-! ### Counts -/

theorem log2_shiftLeft {n : Nat} (pos : 0 < n) (k : Nat) : (n <<< k).log2 = n.log2 + k := by
  have bounds : 2 ^ n.log2 ≤ n ∧ n < 2 ^ (n.log2 + 1) := (Nat.log2_eq_iff (Nat.ne_of_gt pos)).mp rfl
  rw [Nat.shiftLeft_eq, Nat.log2_eq_iff (Nat.ne_of_gt (Nat.mul_pos pos (Nat.two_pow_pos k))),
    Nat.pow_add, Nat.add_right_comm, Nat.pow_add]
  exact ⟨Nat.mul_le_mul_right _ bounds.1,
    Nat.mul_lt_mul_of_pos_right bounds.2 (Nat.two_pow_pos k)⟩

theorem log2_le_of_le {n k : Nat} (pos : 0 < n) (le : n ≤ 2 ^ k) : n.log2 ≤ k := by
  refine Nat.le_of_lt_succ ((Nat.log2_lt (Nat.ne_of_gt pos)).mpr (Nat.lt_of_le_of_lt le ?_))
  exact Nat.pow_lt_pow_right (by decide) (Nat.lt_succ_self k)

/-- A word that is not zero becomes a number of an ordinary size. -/
theorem between_toFloat {n : UInt64} (pos : 0 < n.toNat) :
    Between 0 65 n.toFloat.toModel.unpack := by
  have bound : n.toNat.log2 ≤ 64 := log2_le_of_le pos (Nat.le_of_lt n.toNat_lt)
  have sign : compare (n.toNat : Int) 0 = .gt := Int.compare_eq_gt.mpr (Int.ofNat_lt.mpr pos)
  have target : Format.binary64.targetExponent (totalExponent n.toNat 0) = n.toNat.log2 - 52 := by
    simp only [Format.targetExponent, totalExponent, Format.mantissaBits, Format.minExponent]
    omega
  have amount : (0 - ((n.toNat.log2 : Int) - 52)).toNat = 52 - n.toNat.log2 := by omega
  have width := log2_shiftLeft pos (52 - n.toNat.log2)
  refine between_pack ?_ (by omega) (by omega)
  simp only [ofUInt64, UnpackedFloat.ofNat, UnpackedFloat.ofInt, UnpackedFloat.normalize, sign,
    UnpackedFloat.round, Int.toNat_natCast, target, decreaseExponent, amount]
  exact between_round (by omega) (by omega) (by omega) (by omega) .positive .exact

/-- One, in parts. -/
def one : UnpackedFloat := .finite .positive (2 ^ 52) (-52) (Nat.two_pow_pos 52)

theorem between_mul_one {low high : Int} {x : UnpackedFloat} (between : Between low high x)
    (small : -1022 ≤ low) : Between low (high + 1) (mul Format.binary64 x one) := by
  match x, between with
  | .finite s m e pos, ⟨full, above, below⟩ =>
    have width : (m * 2 ^ 52).log2 = 104 := by
      rw [← Nat.shiftLeft_eq, log2_shiftLeft pos, full]
    exact between_round (by omega) small (by omega) (by omega) _ .exact

/-- Without a power of ten a decimal literal is its digits times one. -/
theorem ofScientific_zero (spec : Format) {n : Nat} (pos : 0 < n) :
    UnpackedFloat.ofScientific spec n 0 =
      mul spec
        (.finite .positive (n <<< spec.mantissaBits) (-spec.mantissaBits)
          (Nat.shiftLeft_pos_iff.mpr pos))
        (.finite .positive 1 0 (by decide)) := by
  have size : (0 : Int) < 2 ^ spec.exponentBits := Int.pow_pos (by decide)
  have near : ¬(0 : Int) > 2 ^ spec.exponentBits := by omega
  have far : ¬(0 : Int) < -((2 ^ spec.exponentBits : Int) + n.log2) := by omega
  simp only [UnpackedFloat.ofScientific, dif_neg (Nat.ne_of_gt pos), if_neg near, if_neg far,
    if_pos (Int.le_refl 0)]
  rfl

/-- A count that is not zero becomes a number of an ordinary size: a small one becomes a word first, a
large one is rounded at once. -/
theorem between_ofNat {n : Nat} (pos : 0 < n) (small : n ≤ 2 ^ 64) :
    Between 0 66 (Float.ofNat n).toModel.unpack := by
  by_cases fits : n < 2 ^ 53
  · have word : n.toUInt64.toNat = n :=
      UInt64.toNat_ofNat_of_lt' (Nat.lt_trans fits (by decide))
    have converted : Float.ofNat n = n.toUInt64.toFloat * Float.ofBits 0x3FF0000000000000 := by
      show Float.ofScientific n false 0 = _
      rw [Float.ofScientific, dif_pos ⟨fits, by decide⟩]
      rfl
    rw [converted]
    refine between_pack ?_ (by decide) (by decide)
    exact between_mul_one (between_toFloat (by omega)) (by decide)
  · have converted : Float.ofNat n = Float.ofModel (Float.Model.ofScientific n 0) := by
      show Float.ofScientific n false 0 = _
      rw [Float.ofScientific, dif_neg fun h => fits h.1]
      rfl
    have scaled : Between 0 66 (UnpackedFloat.ofScientific Format.binary64 n 0) := by
      have bound : n.log2 ≤ 64 := log2_le_of_le pos small
      have width : (n <<< 53 * 1).log2 = n.log2 + 53 := by
        rw [Nat.mul_one, log2_shiftLeft pos]
      rw [ofScientific_zero _ pos, mul]
      exact between_round (m := n <<< 53 * 1) (e := -53 + 0) (by omega) (by decide) (by omega)
        (by omega) .positive .exact
    rw [converted, Float.Model.ofScientific]
    exact between_pack scaled (by decide) (by decide)

/-! ### Quotients -/

theorem isNaN_roundWithAccuracy (sign : Sign) (m : Nat) (e : Int) (accuracy : Accuracy) :
    (roundWithAccuracy Format.binary64 sign m e accuracy).isNaN = false := by
  rw [roundWithAccuracy]
  dsimp only
  split <;> rfl

/-- Dividing by a number that is neither zero nor infinite. -/
theorem isNaN_div {low high : Int} {x y : UnpackedFloat} (number : x.isNaN = false)
    (between : Between low high y) : (div Format.binary64 x y).isNaN = false := by
  match y, between with
  | .finite .., _ =>
    cases x with
    | notANumber => exact number
    | infinity => rfl
    | zero => rfl
    | finite => exact isNaN_roundWithAccuracy ..

theorem isNaN_ofNat {n : Nat} (small : n ≤ 2 ^ 64) :
    (Float.ofNat n).toModel.unpack.isNaN = false := by
  rcases Nat.eq_zero_or_pos n with rfl | pos
  · rfl
  · have between := between_ofNat pos small
    match (Float.ofNat n).toModel.unpack, between with
    | .finite .., _ => rfl

/-- The quotient of two counts is a number unless the divisor is zero. -/
theorem isNaN_ratio {count whole : Nat} (pos : 0 < whole) (le : count ≤ whole)
    (small : whole ≤ 2 ^ 64) : (Sets.ratio count whole).isNaN = false := by
  rw [Sets.ratio, if_neg (Nat.ne_of_gt pos)]
  refine (isNaN_unpack_pack _).trans ?_
  exact isNaN_div (isNaN_ofNat (Nat.le_trans le small)) (between_ofNat pos small)

end NeighborGraph.Counts
