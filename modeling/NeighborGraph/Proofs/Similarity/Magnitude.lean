import Mathlib
import NeighborGraph.Similarity.Vectors

/-!
# Numbers of the same size

Subtraction the other way round gives the opposite number, or a zero again, or NaN again: in any case a
number of the same size, also after it was put into a word (`abs_unpack_pack_sub`, for any format).  The
size is all that is left of a number when its sign is dropped (`abs_sub_comm`) and when it is multiplied
by itself (`sub_mul_self_comm`).
-/

namespace NeighborGraph.Magnitude

open Float.Model (Format UnpackedFloat)
open Float.Model.UnpackedFloat

variable (spec : Format)

/-! ### Products -/

theorem sign_mul_comm (s t : Sign) : s * t = t * s := by
  cases s <;> cases t <;> rfl

/-- The order of the factors has no part in a product. -/
theorem mul_parts_comm (x y : UnpackedFloat) : mul spec x y = mul spec y x := by
  cases x with
  | notANumber => cases y <;> rfl
  | infinity s =>
    cases y with
    | notANumber => rfl
    | zero t => rfl
    | infinity t => exact congrArg UnpackedFloat.infinity (sign_mul_comm s t)
    | finite t => exact congrArg UnpackedFloat.infinity (sign_mul_comm s t)
  | zero s =>
    cases y with
    | notANumber => rfl
    | infinity t => rfl
    | zero t => exact congrArg UnpackedFloat.zero (sign_mul_comm s t)
    | finite t => exact congrArg UnpackedFloat.zero (sign_mul_comm s t)
  | finite s m e =>
    cases y with
    | notANumber => rfl
    | infinity t => exact congrArg UnpackedFloat.infinity (sign_mul_comm s t)
    | zero t => exact congrArg UnpackedFloat.zero (sign_mul_comm s t)
    | finite t n f => rw [mul, mul, sign_mul_comm, Nat.mul_comm, Int.add_comm]

/-- A number times itself depends on its size alone. -/
theorem mul_self_of_abs {x y : UnpackedFloat} (same : abs x = abs y) :
    mul spec x x = mul spec y y := by
  have positive (s t : Sign) : s * s = t * t := by cases s <;> cases t <;> rfl
  cases x <;> cases y <;> cases same
  · exact congrArg UnpackedFloat.infinity (positive _ _)
  · rfl
  · exact congrArg UnpackedFloat.zero (positive _ _)
  · rw [mul, mul, positive]

/-! ### Differences -/

/-- Rounding a size does not look at the sign. -/
theorem abs_roundWithAccuracy (s t : Sign) (m : Nat) (e : Int) (accuracy : Accuracy) :
    abs (roundWithAccuracy spec s m e accuracy) = abs (roundWithAccuracy spec t m e accuracy) := by
  simp only [roundWithAccuracy]
  split <;> rfl

theorem abs_round (s t : Sign) (m : Nat) (e : Int) :
    abs (round spec s m e) = abs (round spec t m e) :=
  abs_roundWithAccuracy spec s t _ _ .exact

/-- Opposite numbers are rounded to numbers of the same size. -/
theorem abs_normalize_neg (n e : Int) (s : Sign) :
    abs (UnpackedFloat.normalize spec (-n) e s) = abs (UnpackedFloat.normalize spec n e s) := by
  rcases Int.lt_trichotomy n 0 with below | rfl | above
  · have order : compare n 0 = .lt := Int.compare_eq_lt.mpr below
    have mirrored : compare (-n) 0 = .gt := Int.compare_eq_gt.mpr (by omega)
    rw [UnpackedFloat.normalize, UnpackedFloat.normalize, order, mirrored]
    exact abs_round spec _ _ _ e
  · rfl
  · have order : compare n 0 = .gt := Int.compare_eq_gt.mpr above
    have mirrored : compare (-n) 0 = .lt := Int.compare_eq_lt.mpr (by omega)
    rw [UnpackedFloat.normalize, UnpackedFloat.normalize, order, mirrored, Int.neg_neg]
    exact abs_round spec _ _ _ e

theorem abs_sub_parts (x y : UnpackedFloat) : abs (sub spec x y) = abs (sub spec y x) := by
  cases x with
  | notANumber => cases y <;> rfl
  | infinity s =>
    cases y with
    | infinity t => cases s <;> cases t <;> rfl
    | _ => rfl
  | zero s =>
    cases y with
    | zero t => cases s <;> cases t <;> rfl
    | _ => rfl
  | finite s m e =>
    cases y with
    | finite t n f =>
      simp only [sub]
      rw [← Int.neg_sub, abs_normalize_neg, Int.min_comm]
    | _ => rfl

/-! ### Words -/

/-- The sign of a word is one bit of its own. -/
theorem abs_unpack_packComponents (s t : Sign) (exponent : BitVec spec.exponentBits)
    (significand : BitVec spec.mantissaBitsWithoutImplicit) :
    abs (unpack spec (packComponents spec s exponent significand))
      = abs (unpack spec (packComponents spec t exponent significand)) := by
  simp only [unpack, unpackMantissa_packComponents, unpackExponent_packComponents]
  split
  · split <;> rfl
  · split
    · split <;> rfl
    · rfl

/-- Numbers of the same size are put into words of the same size. -/
theorem abs_unpack_pack {x y : UnpackedFloat} (same : abs x = abs y) :
    abs (unpack spec (pack spec x)) = abs (unpack spec (pack spec y)) := by
  cases x <;> cases y <;> cases same
  · exact abs_unpack_packComponents spec _ _ _ _
  · rfl
  · exact abs_unpack_packComponents spec _ _ _ _
  · simp only [pack]
    split
    · exact abs_unpack_packComponents spec _ _ _ _
    · split <;> exact abs_unpack_packComponents spec _ _ _ _

/-- A difference and the one the other way round have the same size. -/
theorem abs_unpack_pack_sub (x y : UnpackedFloat) :
    abs (unpack spec (pack spec (sub spec x y))) = abs (unpack spec (pack spec (sub spec y x))) :=
  abs_unpack_pack spec (abs_sub_parts spec x y)

/-! ### Both widths -/

theorem mul_comm (x y : Float) : x * y = y * x :=
  congrArg (fun parts => Float.ofModel (.pack parts)) (mul_parts_comm _ _ _)

theorem abs_sub_comm (x y : Float) : (x - y).abs = (y - x).abs :=
  congrArg (fun parts => Float.ofModel (.pack parts)) (abs_unpack_pack_sub _ _ _)

theorem sub_mul_self_comm (x y : Float) : (x - y) * (x - y) = (y - x) * (y - x) :=
  congrArg (fun parts => Float.ofModel (.pack parts))
    (mul_self_of_abs _ (abs_unpack_pack_sub _ _ _))

theorem sub_mul_self_comm32 (x y : Float32) : (x - y) * (x - y) = (y - x) * (y - x) :=
  congrArg (fun parts => Float32.ofModel (.pack parts))
    (mul_self_of_abs _ (abs_unpack_pack_sub _ _ _))

end NeighborGraph.Magnitude
