import NeighborGraph.Binary
import NeighborGraph.Proofs.Binary.Rounding
import NeighborGraph.Proofs.NumberLine

/-!
# Floating-point numbers as fractions

`Stands x v` says that the floating-point number `x` is finite, has no sign and stands for the fraction
`v`.  A fraction has one such number (`Stands.inj`), comparing them is comparing the fractions
(`Stands.le_one_iff`, `Stands.pos_iff`), and the significand and the exponent are in the bits
(`exists_fields`), where packing puts them (`stands_pack`).
-/

namespace NeighborGraph.Nearest

open Float.Model (Format UnpackedFloat)
open Float.Model.UnpackedFloat

/-! ### Fields of the bits -/

theorem toNat_exponentField (bits : UInt64) :
    ((bits >>> 52) &&& 0x7ff).toNat =
      (@unpackExponent Format.binary64 bits.toBitVec).toNat := by
  rw [UInt64.toNat_and, UInt64.toNat_shiftRight]
  simpa [unpackExponent] using Nat.and_two_pow_sub_one_eq_mod (bits.toNat >>> 52) 11

theorem toNat_fraction (bits : UInt64) :
    (bits &&& 0xfffffffffffff).toNat =
      (@unpackMantissa Format.binary64 bits.toBitVec).toNat := by
  rw [UInt64.toNat_and]
  simpa [unpackMantissa] using Nat.and_two_pow_sub_one_eq_mod bits.toNat 52

theorem unpackSign_eq_zero_iff (bits : UInt64) :
    @unpackSign Format.binary64 bits.toBitVec = 0#1 ↔ bits >>> 63 = 0 := by
  have top : bits.toNat >>> 63 < 2 := by
    rw [Nat.shiftRight_eq_div_pow]
    exact Nat.div_lt_of_lt_mul bits.toNat_lt
  have field : (@unpackSign Format.binary64 bits.toBitVec).toNat = bits.toNat >>> 63 := by
    simpa [unpackSign] using Nat.le_of_lt_succ top
  rw [← BitVec.toNat_inj, ← UInt64.toNat_inj, UInt64.toNat_shiftRight, field]
  rfl

/-- The sign of a number. -/
def signOf (x : Float) : Sign := if x.toBits >>> 63 = 0 then .positive else .negative

theorem ofBitVec_unpackSign (x : Float) :
    Sign.ofBitVec (@unpackSign Format.binary64 x.toBits.toBitVec) = signOf x := by
  simp only [Sign.ofBitVec, signOf, unpackSign_eq_zero_iff]

section Unpack

variable {b : BitVec Format.binary64.numBits}

theorem unpack_least (zero : unpackExponent b = 0#11) :
    unpack Format.binary64 b =
      parts (Sign.ofBitVec (unpackSign b)) (unpackMantissa b).toNat (-1074) := by
  have finite : unpackExponent b ≠ -1#11 := by
    rw [zero]
    decide
  rw [unpack]
  simp only [if_neg finite, if_pos zero]
  by_cases empty : unpackMantissa b = 0#52
  · have none : (unpackMantissa b).toNat = 0 := congrArg BitVec.toNat empty
    rw [dif_pos empty, parts, dif_pos none]
  · have some : (unpackMantissa b).toNat ≠ 0 := fun none => empty (BitVec.toNat_inj.mp none)
    rw [dif_neg empty, parts, dif_neg some]
    simp only [zero]
    rfl

theorem unpack_ordinary (finite : unpackExponent b ≠ -1#11) (some : unpackExponent b ≠ 0#11) :
    unpack Format.binary64 b =
      parts (Sign.ofBitVec (unpackSign b)) (2 ^ 52 + (unpackMantissa b).toNat)
        ((unpackExponent b).toNat - 1075) := by
  have implicit : (1#1 ++ unpackMantissa b).toNat = 2 ^ 52 + (unpackMantissa b).toNat := by
    rw [BitVec.toNat_append, ← Nat.shiftLeft_add_eq_or_of_lt (unpackMantissa b).isLt,
      Nat.shiftLeft_eq]
    rfl
  rw [unpack]
  simp only [if_neg finite, if_neg some]
  rw [parts, dif_neg (by omega)]
  simp only [implicit]
  rfl

theorem isFinite_top (top : unpackExponent b = -1#11) :
    (unpack Format.binary64 b).isFinite = false := by
  rw [unpack]
  simp only [if_pos top]
  split <;> rfl

end Unpack

/-- The significand and the exponent of a finite number. -/
structure Fields (x : Float) (b : Binary) : Prop where
  bits : Binary.ofBits? x.toBits = some b
  unpack : x.toModel.unpack = parts (signOf x) b.significand b.exponent
  canonical : Canonical b.significand b.exponent
  largest : b.exponent ≤ 971
  lowest : b.lowest = true ↔ b.significand = 2 ^ 52 ∧ b.exponent ≠ -1074

theorem exists_fields {x : Float} (finite : x.toModel.isFinite = true) : ∃ b, Fields x b := by
  have opened : x.toModel.unpack = UnpackedFloat.unpack Format.binary64 x.toBits.toBitVec := rfl
  have exponent := toNat_exponentField x.toBits
  have fraction := toNat_fraction x.toBits
  have ordinary : @unpackExponent Format.binary64 x.toBits.toBitVec ≠ -1#11 := by
    intro top
    rw [Float.Model.isFinite, opened, isFinite_top top] at finite
    cases finite
  have large : ((x.toBits >>> 52) &&& 0x7ff).toNat ≠ 0x7ff := by
    rw [exponent]
    exact fun all => ordinary (BitVec.toNat_inj.mp all)
  have range : ((x.toBits >>> 52) &&& 0x7ff).toNat < 2048 := by
    rw [exponent]
    exact BitVec.isLt _
  have width : (x.toBits &&& 0xfffffffffffff).toNat < 2 ^ 52 := by
    rw [fraction]
    exact BitVec.isLt _
  by_cases zero : @unpackExponent Format.binary64 x.toBits.toBitVec = 0#11
  · rw [unpack_least zero, ofBitVec_unpackSign, ← fraction] at opened
    have none : ((x.toBits >>> 52) &&& 0x7ff).toNat = 0 := by
      rw [exponent, zero]
      rfl
    refine ⟨⟨_, -1074, false⟩, ?_, opened, ⟨?_, le_rfl, .inl rfl⟩, ?_, ?_⟩
    · rw [Binary.ofBits?]
      simp only [if_neg large, if_pos none]
      rfl
    · exact Nat.lt_trans width (by norm_num)
    · show (-1074 : ℤ) ≤ 971
      norm_num
    · simp
  · rw [unpack_ordinary ordinary zero, ofBitVec_unpackSign, ← fraction, ← exponent] at opened
    have some : ((x.toBits >>> 52) &&& 0x7ff).toNat ≠ 0 := by
      rw [exponent]
      exact fun none => zero (BitVec.toNat_inj.mp none)
    generalize significand : (x.toBits &&& 0xfffffffffffff).toNat = f at width opened
    generalize power : ((x.toBits >>> 52) &&& 0x7ff).toNat = e at range large some opened
    refine ⟨⟨f + 0x10000000000000, (e : ℤ) - 1075, f = 0 && 1 < e⟩, ?_, ?_, ⟨?_, ?_, .inr ?_⟩, ?_, ?_⟩
    · simp only [Binary.ofBits?, significand, power, if_neg large, if_neg some]
    · rw [opened, Nat.add_comm]
      rfl
    · show f + 0x10000000000000 < 2 ^ 53
      omega
    · show -1074 ≤ (e : ℤ) - 1075
      omega
    · show 2 ^ 52 ≤ f + 0x10000000000000
      omega
    · show (e : ℤ) - 1075 ≤ 971
      omega
    · show (f = 0 && 1 < e) = true ↔ f + 0x10000000000000 = 2 ^ 52 ∧ (e : ℤ) - 1075 ≠ -1074
      simp
      omega

/-! ### Packing -/

variable {m m' : ℕ} {t t' : ℤ} {sign : Sign}

theorem pack_finite (pos : 0 < m) (largest : t ≤ 971) :
    pack Format.binary64 (.finite sign m t pos) =
      packComponents Format.binary64 sign
        (if m.log2 = 52 then BitVec.ofNat 11 (t + 1075).toNat else 0#11) (BitVec.ofNat 52 m) := by
  have biased : (t + Format.binary64.exponentBias + (52 : Nat)).toNat = (t + 1075).toNat := by
    show (t + 1023 + 52).toNat = _
    omega
  have small : ¬2048 ≤ (t + 1075).toNat + 1 := by omega
  have width : m.log2 + 1 = Format.binary64.mantissaBits ↔ m.log2 = 52 := by
    show m.log2 + 1 = 53 ↔ _
    omega
  simp only [pack, biased, if_neg small, width]
  split <;> rfl

/-- What is packed comes out of the bits again. -/
theorem unpack_pack_parts (h : Canonical m t) (largest : t ≤ 971) :
    unpack Format.binary64 (pack Format.binary64 (parts sign m t)) = parts sign m t := by
  by_cases zero : m = 0
  · rw [parts, dif_pos zero]
    exact unpack_packedZero
  have pos := Nat.pos_of_ne_zero zero
  have packed : pack Format.binary64 (.finite sign m t pos) = _ := pack_finite pos largest
  conv_lhs => rw [parts, dif_neg zero]
  rw [packed]
  have width := h.width
  have least := h.least
  by_cases full : 2 ^ 52 ≤ m
  · have wide : m.log2 = 52 := (Nat.log2_eq_iff zero).mpr ⟨full, width⟩
    have place : (BitVec.ofNat 11 (t + 1075).toNat).toNat = (t + 1075).toNat := by
      show (t + 1075).toNat % 2048 = _
      omega
    rw [if_pos wide, unpack_ordinary, unpackExponent_packComponents, unpackMantissa_packComponents,
      unpackSign_packComponents, place, Sign.ofBitVec_toBitVec]
    · congr 1
      · show 2 ^ 52 + m % 2 ^ 52 = m
        omega
      · omega
    · rw [unpackExponent_packComponents]
      intro ones
      have ones : (t + 1075).toNat = 2047 := place.symm.trans (congrArg BitVec.toNat ones)
      omega
    · rw [unpackExponent_packComponents]
      intro zeros
      have zeros : (t + 1075).toNat = 0 := place.symm.trans (congrArg BitVec.toNat zeros)
      omega
  · have narrow : m.log2 ≠ 52 := fun wide => full ((Nat.log2_eq_iff zero).mp wide).1
    rw [if_neg narrow, unpack_least unpackExponent_packComponents, unpackMantissa_packComponents,
      unpackSign_packComponents, Sign.ofBitVec_toBitVec]
    congr 1
    · show m % 2 ^ 52 = m
      omega
    · exact (h.full.resolve_right full).symm

/-! ### Order -/

theorem Canonical.le_iff (h : Canonical m t) (h' : Canonical m' t') :
    (m * 2 ^ t : ℚ) ≤ m' * 2 ^ t' ↔ t < t' ∨ t = t' ∧ m ≤ m' := by
  -- the order of the values goes by the exponents first
  have ordered {m m' : ℕ} {t t' : ℤ} (h : Canonical m t) (h' : Canonical m' t')
      (le : (m * 2 ^ t : ℚ) ≤ m' * 2 ^ t') : t < t' ∨ t = t' ∧ m ≤ m' := by
    rcases h.rounds.toFits.step h'.rounds.toFits le with rfl | ⟨apart, -⟩
    · have significand := le_of_mul_le_mul_right le (two_zpow_pos t)
      exact .inr ⟨rfl, by exact_mod_cast significand⟩
    · left
      by_contra more
      have power : (2 : ℚ) ^ t' ≤ 2 ^ t := two_zpow_le (by omega)
      have := two_zpow_pos t'
      linarith
  refine ⟨ordered h h', fun order => ?_⟩
  by_contra less
  have other := ordered h' h (le_of_not_ge less)
  have same : t = t' ∧ m = m' := by omega
  obtain ⟨rfl, rfl⟩ := same
  exact less le_rfl

/-! ### Numbers without a sign -/

/-- `x` is finite, has no sign and stands for `v`. -/
def Stands (x : Float) (v : ℚ) : Prop :=
  ∃ m t, Canonical m t ∧ t ≤ 971 ∧ x.toModel.unpack = parts .positive m t ∧ v = m * 2 ^ t

variable {x y : Float} {v w : ℚ}

theorem Stands.nonneg (h : Stands x v) : 0 ≤ v := by
  obtain ⟨m, t, -, -, -, rfl⟩ := h
  positivity

/-- A number is nearest to itself. -/
theorem Stands.isNearest (h : Stands x v) : IsNearest v v := by
  obtain ⟨m, t, canonical, -, -, rfl⟩ := h
  exact canonical.isNearest

/-- The parts of a number tell it from all others. -/
theorem eq_of_unpack (h : x.toModel.unpack = y.toModel.unpack) : x = y := by
  have bits := (unpack_inj_of_valid x.toModel.valid y.toModel.valid).mp h
  exact Float.toBits_inj.mp (UInt64.toBitVec_inj.mp bits)

/-- A fraction has one number. -/
theorem Stands.inj (h : Stands x v) (h' : Stands y v) : x = y := by
  obtain ⟨m, t, canonical, -, unpack, rfl⟩ := h
  obtain ⟨m', t', canonical', -, unpack', same⟩ := h'
  obtain ⟨rfl, rfl⟩ := canonical.unique canonical' same
  exact eq_of_unpack (unpack.trans unpack'.symm)

/-- A number stands for one fraction. -/
theorem Stands.unique (h : Stands x v) (h' : Stands x w) : v = w := by
  obtain ⟨m, t, -, -, unpack, rfl⟩ := h
  obtain ⟨m', t', -, -, unpack', rfl⟩ := h'
  rw [unpack, parts, parts] at unpack'
  split at unpack' <;> split at unpack'
  · simp_all
  · cases unpack'
  · cases unpack'
  · injection unpack' with _ significand exponent
    rw [significand, exponent]

theorem stands_pack (h : Canonical m t) (largest : t ≤ 971) :
    Stands ⟨Float.Model.pack (parts .positive m t)⟩ (m * 2 ^ t) :=
  ⟨m, t, h, largest, unpack_pack_parts h largest, rfl⟩

theorem canonical_largest : Canonical (2 ^ 53 - 1) 971 :=
  ⟨by norm_num, by norm_num, .inr (by norm_num)⟩

/-- The largest finite number. -/
def largest : ℚ := ((2 ^ 53 - 1 : ℕ) : ℚ) * 2 ^ (971 : ℤ)

theorem isNearest_largest : IsNearest largest largest := canonical_largest.isNearest

/-- The exact result of an operation that is not past the largest number is rounded to a number. -/
theorem exists_stands {q : ℚ} {e : ℤ} {accuracy : Accuracy}
    (h : Holds (ExtendedMantissa.ofMantissaAndAccuracy m accuracy) (q / 2 ^ e))
    (ready : e ≤ target m e) (bound : q ≤ largest) :
    ∃ v, IsNearest q v ∧
      Stands ⟨Float.Model.pack (roundWithAccuracy Format.binary64 .positive m e accuracy)⟩ v := by
  obtain ⟨m', t, canonical, nearest, result⟩ := exists_round .positive h ready
  refine ⟨_, nearest, ?_⟩
  rw [result]
  refine stands_pack canonical ?_
  have below := nearest.mono isNearest_largest bound
  rcases (canonical.le_iff canonical_largest).mp below with less | ⟨same, -⟩
  · exact less.le
  · exact same.le

/-! ### Comparisons -/

theorem isNaN_parts : (parts sign m t).isNaN = false := by
  rw [parts]
  split <;> rfl

theorem Stands.isNaN (h : Stands x v) : x.isNaN = false := by
  obtain ⟨m, t, -, -, unpack, -⟩ := h
  show x.toModel.unpack.isNaN = false
  rw [unpack, isNaN_parts]

/-- Comparing numbers is comparing what they stand for. -/
theorem Stands.le_iff (h : Stands x v) (h' : Stands y w) : x ≤ y ↔ v ≤ w := by
  rw [NumberLine.le_iff_place h.isNaN h'.isNaN, NumberLine.place, NumberLine.place]
  obtain ⟨m, t, canonical, -, unpack, rfl⟩ := h
  obtain ⟨m', t', canonical', -, unpack', rfl⟩ := h'
  rw [unpack, unpack', canonical.le_iff canonical', parts, parts]
  have least := canonical.least
  have least' := canonical'.least
  have full := canonical.full
  have full' := canonical'.full
  split <;> split <;> simp [NumberLine.placeOfParts, Prod.Lex.toLex_le_toLex] <;> omega

theorem Stands.lt_iff (h : Stands x v) (h' : Stands y w) : x < y ↔ v < w := by
  rw [← not_le, ← h'.le_iff h, NumberLine.le_iff_not_lt h'.isNaN h.isNaN, not_not]

theorem stands_zero : Stands 0.0 0 := by
  refine ⟨0, -1074, ⟨by norm_num, le_rfl, .inl rfl⟩, by norm_num, rfl, by simp⟩

/-- A number that stands for something does not equal zero. -/
theorem Stands.beq_zero_of_pos (h : Stands x v) (pos : 0 < v) : (x == 0.0) = false := by
  rw [Bool.eq_false_iff]
  intro same
  rw [NumberLine.beq_iff_place h.isNaN stands_zero.isNaN] at same
  have le := (NumberLine.le_iff_place h.isNaN stands_zero.isNaN).mpr same.le
  rw [h.le_iff stands_zero] at le
  linarith

theorem stands_one : Stands 1.0 1 := by
  refine ⟨2 ^ 52, -52, ⟨by norm_num, by norm_num, .inr le_rfl⟩, by norm_num, rfl, ?_⟩
  norm_num

theorem Fields.stands {b : Binary} (h : Fields x b) (positive : signOf x = .positive) :
    Stands x (b.significand * 2 ^ b.exponent) :=
  ⟨_, _, h.canonical, h.largest, by rw [h.unpack, positive], rfl⟩

/-- What is not below zero and not above one is finite, and with a sign it is zero. -/
theorem fields_of_unit (low : 0.0 ≤ x) (high : x ≤ 1.0) :
    ∃ b, Fields x b ∧ (signOf x = .negative → b.significand = 0) := by
  have low : UnpackedFloat.le (.zero .positive) x.toModel.unpack = true := of_decide_eq_true low
  have high : UnpackedFloat.le x.toModel.unpack (.finite .positive (2 ^ 52) (-52) (by decide)) = true :=
    of_decide_eq_true high
  have finite : x.toModel.unpack.isFinite = true := by
    cases unpack : x.toModel.unpack with
    | infinity s =>
      rw [unpack] at low high
      cases s
      · cases low
      · cases high
    | notANumber =>
      rw [unpack] at low
      cases low
    | zero s => rfl
    | finite s m t pos => rfl
  obtain ⟨b, fields⟩ := exists_fields finite
  refine ⟨b, fields, fun negative => ?_⟩
  by_contra some
  rw [fields.unpack, negative, parts, dif_neg some] at low
  cases low

end NeighborGraph.Nearest
