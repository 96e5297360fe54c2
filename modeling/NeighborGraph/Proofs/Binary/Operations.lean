import NeighborGraph.Proofs.Binary.Numbers

/-!
# Operations round once

Products (`stands_mul`) and quotients (`stands_div`) of floating-point numbers are the numbers nearest
to the exact results, and a natural becomes the number nearest to it (`stands_ofNat`), as long as the
exact result is not past the largest number.
-/

namespace NeighborGraph.Nearest

open Float.Model (Format UnpackedFloat)
open Float.Model.UnpackedFloat

variable {x y : Float} {v w q : ℚ} {m n k : ℕ} {e t : ℤ}

theorem isNearest_zero : IsNearest 0 0 := stands_zero.isNearest

theorem holds_exact (r : ℕ) : Holds (ExtendedMantissa.ofMantissaAndAccuracy r .exact) r := rfl

/-! ### Products -/

/-- A product has all bits it is rounded to, unless its exponent is very small. -/
theorem ready_mul (h : Canonical m e) (h' : Canonical n t) (some : m ≠ 0) (some' : n ≠ 0) :
    e + t ≤ target (m * n) (e + t) := by
  have product : m * n ≠ 0 := Nat.mul_ne_zero some some'
  by_cases wide : 2 ^ 52 ≤ m * n
  · have wide := (Nat.le_log2 product).mpr wide
    simp only [target]
    omega
  · have left : m ≤ m * n := Nat.le_mul_of_pos_right m (Nat.pos_of_ne_zero some')
    have right : n ≤ m * n := Nat.le_mul_of_pos_left n (Nat.pos_of_ne_zero some)
    have := h.full
    have := h'.full
    simp only [target]
    omega

theorem stands_mul (h : Stands x v) (h' : Stands y w) (bound : v * w ≤ largest) :
    ∃ u, IsNearest (v * w) u ∧ Stands (x * y) u := by
  obtain ⟨m, e, canonical, -, unpack, rfl⟩ := h
  obtain ⟨n, t, canonical', -, unpack', rfl⟩ := h'
  have opened : x * y = ⟨Float.Model.pack (mul Format.binary64 x.toModel.unpack y.toModel.unpack)⟩ :=
    rfl
  rw [opened, unpack, unpack']
  by_cases zero : m = 0 ∨ n = 0
  · have nothing : mul Format.binary64 (parts .positive m e) (parts .positive n t) = .zero .positive := by
      rw [parts, parts]
      split <;> split <;> first | rfl | omega
    have none : (m * 2 ^ e * (n * 2 ^ t) : ℚ) = 0 := by
      rcases zero with rfl | rfl <;> simp
    rw [nothing, none]
    exact ⟨0, isNearest_zero, stands_zero⟩
  · rw [not_or] at zero
    rw [parts, dif_neg zero.1, parts, dif_neg zero.2]
    refine exists_stands ?_ (ready_mul canonical canonical' zero.1 zero.2) bound
    have exact : (m * 2 ^ e * (n * 2 ^ t) / 2 ^ (e + t) : ℚ) = (m * n : ℕ) := by
      rw [zpow_add₀ (by norm_num)]
      push_cast
      field_simp
    rw [exact]
    exact holds_exact (m * n)

/-! ### Quotients -/

theorem holds_quotient (a : ℕ) {d : ℕ} (pos : 0 < d) :
    Holds (ExtendedMantissa.ofMantissaAndAccuracy (a / d) (accuracyOfFraction (a % d) d)) (a / d : ℚ) := by
  have unit : (0 : ℚ) < d := by exact_mod_cast pos
  have whole : (a : ℚ) = d * (a / d : ℕ) + (a % d : ℕ) := by exact_mod_cast (Nat.div_add_mod a d).symm
  have quotient : (a / d : ℚ) = (a / d : ℕ) + (a % d : ℕ) / d := by
    rw [whole, add_div, mul_div_cancel_left₀ _ unit.ne']
  have less : a % d < d := Nat.mod_lt a pos
  rw [quotient, accuracyOfFraction]
  generalize a / d = whole
  generalize a % d = rest at less
  by_cases none : rest = 0
  · rw [if_pos none, none]
    simp [Holds, ExtendedMantissa.ofMantissaAndAccuracy]
  · rw [if_neg none]
    have some : (0 : ℚ) < rest := by exact_mod_cast Nat.pos_of_ne_zero none
    have proper : (rest : ℚ) < d := by exact_mod_cast less
    rcases lt_trichotomy (2 * rest) d with order | order | order
    · rw [Nat.compare_eq_lt.mpr order]
      have half : (2 * rest : ℚ) < d := by exact_mod_cast order
      have share : (0 : ℚ) < rest / d := div_pos some unit
      have share' : (rest / d : ℚ) < 1 / 2 := by
        rw [div_lt_div_iff₀ unit (by norm_num)]
        linarith
      show (whole : ℚ) < whole + rest / d ∧ (whole + rest / d : ℚ) < whole + 1 / 2
      exact ⟨by linarith, by linarith⟩
    · rw [Nat.compare_eq_eq.mpr order]
      have half : (2 * rest : ℚ) = d := by exact_mod_cast order
      have share : (rest / d : ℚ) = 1 / 2 := by
        rw [div_eq_div_iff unit.ne' (by norm_num)]
        linarith
      show (whole + rest / d : ℚ) = whole + 1 / 2
      rw [share]
    · rw [Nat.compare_eq_gt.mpr order]
      have half : (d : ℚ) < 2 * rest := by exact_mod_cast order
      have share : (1 / 2 : ℚ) < rest / d := by
        rw [div_lt_div_iff₀ (by norm_num) unit]
        linarith
      have share' : (rest / d : ℚ) < 1 := (div_lt_one unit).mpr proper
      show (whole + 1 / 2 : ℚ) < whole + rest / d ∧ (whole + rest / d : ℚ) < whole + 1
      exact ⟨by linarith, by linarith⟩

/-- The exponent a quotient is worked out to. -/
def quotientExponent (m : ℕ) (e : ℤ) (n : ℕ) (t : ℤ) : ℤ :=
  min (e - t) (max (m.log2 + e - (n.log2 + t) - 53) (-1074))

theorem divCore_eq (m : ℕ) (e : ℤ) (n : ℕ) (t : ℤ) :
    divCore Format.binary64 m e n t =
      let s := quotientExponent m e n t
      let shifted := m <<< (e - t - s).toNat
      (shifted / n, s, accuracyOfFraction (shifted % n) n) := by
  have exponent : min (e - t) (Format.binary64.targetExponent
      (Float.Model.totalExponent m e - Float.Model.totalExponent n t)) = quotientExponent m e n t := by
    simp only [Format.targetExponent, Float.Model.totalExponent, Format.mantissaBits,
      Format.minExponent, quotientExponent]
    omega
  simp only [divCore, exponent]

/-- A quotient is worked out to all bits it is rounded to, unless its exponent is very small. -/
theorem ready_div (some : m ≠ 0) (some' : n ≠ 0) {s : ℤ} (exponent : quotientExponent m e n t = s) :
    s ≤ target ((m <<< (e - t - s).toNat) / n) s := by
  by_cases low : s ≤ -1074
  · simp only [target]
    omega
  have deep : s ≤ e - t ∧ s ≤ m.log2 + e - (n.log2 + t) - 53 := by
    simp only [quotientExponent] at exponent
    omega
  have wide : 2 ^ (n.log2 + 53) ≤ m <<< (e - t - s).toNat := by
    rw [Nat.shiftLeft_eq]
    calc 2 ^ (n.log2 + 53) ≤ 2 ^ (m.log2 + (e - t - s).toNat) :=
          Nat.pow_le_pow_right (by norm_num) (by omega)
      _ = 2 ^ m.log2 * 2 ^ (e - t - s).toNat := pow_add ..
      _ ≤ m * 2 ^ (e - t - s).toNat := Nat.mul_le_mul_right _ (Nat.log2_self_le some)
  have full : 2 ^ 52 ≤ (m <<< (e - t - s).toNat) / n := by
    rw [Nat.le_div_iff_mul_le (Nat.pos_of_ne_zero some')]
    refine le_trans ?_ wide
    calc 2 ^ 52 * n ≤ 2 ^ 52 * 2 ^ (n.log2 + 1) := Nat.mul_le_mul_left _ Nat.lt_log2_self.le
      _ = 2 ^ (n.log2 + 53) := by rw [← pow_add, Nat.add_comm 52, Nat.add_assoc]
  have leading := (Nat.le_log2 (by omega)).mpr full
  simp only [target]
  omega

/-- The exact quotient in units of the exponent it is worked out to. -/
theorem quotient_scaled (some : n ≠ 0) {s : ℤ} (small : s ≤ e - t) :
    (m * 2 ^ e / (n * 2 ^ t) / 2 ^ s : ℚ) = (m <<< (e - t - s).toNat : ℕ) / n := by
  have whole : ((e - t - s).toNat : ℤ) = e - t - s := Int.toNat_of_nonneg (by omega)
  have power : (2 : ℚ) ^ e = 2 ^ (e - t - s).toNat * (2 ^ t * 2 ^ s) := by
    rw [← zpow_natCast, whole, ← zpow_add₀ (by norm_num), ← zpow_add₀ (by norm_num)]
    congr 1
    omega
  have unit : (n : ℚ) ≠ 0 := by exact_mod_cast some
  have := (two_zpow_pos t).ne'
  have := (two_zpow_pos s).ne'
  rw [power, Nat.shiftLeft_eq]
  push_cast
  field_simp

theorem stands_div (h : Stands x v) (h' : Stands y w) (pos : 0 < w) (bound : v / w ≤ largest) :
    ∃ u, IsNearest (v / w) u ∧ Stands (x / y) u := by
  obtain ⟨m, e, canonical, -, unpack, rfl⟩ := h
  obtain ⟨n, t, canonical', -, unpack', rfl⟩ := h'
  have opened : x / y = ⟨Float.Model.pack (div Format.binary64 x.toModel.unpack y.toModel.unpack)⟩ :=
    rfl
  have some : n ≠ 0 := by
    rintro rfl
    simp at pos
  rw [opened, unpack, unpack', show parts .positive n t = _ from dif_neg some]
  by_cases zero : m = 0
  · have none : (m * 2 ^ e / (n * 2 ^ t) : ℚ) = 0 := by
      rw [zero]
      simp
    rw [none, show parts .positive m e = _ from dif_pos zero]
    exact ⟨0, isNearest_zero, stands_zero⟩
  · rw [show parts .positive m e = _ from dif_neg zero]
    simp only [div, divCore_eq]
    refine exists_stands ?_ (ready_div zero some rfl) bound
    have small : quotientExponent m e n t ≤ e - t := min_le_left _ _
    rw [quotient_scaled some small]
    exact holds_quotient _ (Nat.pos_of_ne_zero some)

/-! ### Naturals -/

/-- A natural that is shifted to 53 bits. -/
theorem stands_shifted (pos : 0 < n) (wide : 52 ≤ n.log2 + k) (bound : (n : ℚ) ≤ largest) :
    ∃ v, IsNearest n v ∧
      Stands ⟨Float.Model.pack (roundWithAccuracy Format.binary64 .positive (n <<< k) (-k) .exact)⟩
        v := by
  have ready : -(k : ℤ) ≤ target (n <<< k) (-k) := by
    rw [target, Counts.log2_shiftLeft pos]
    omega
  refine exists_stands ?_ ready bound
  have exact : (n / 2 ^ (-(k : ℤ)) : ℚ) = (n <<< k : ℕ) := by
    rw [zpow_neg, zpow_natCast, div_inv_eq_mul, Nat.shiftLeft_eq]
    push_cast
    rfl
  rw [exact]
  exact holds_exact _

theorem stands_toFloat (n : UInt64) (bound : (n.toNat : ℚ) ≤ largest) :
    ∃ v, IsNearest n.toNat v ∧ Stands n.toFloat v := by
  have opened : n.toFloat =
      ⟨Float.Model.pack (UnpackedFloat.normalize Format.binary64 n.toNat 0 .positive)⟩ := rfl
  rw [opened, UnpackedFloat.normalize]
  rcases Nat.eq_zero_or_pos n.toNat with zero | pos
  · rw [zero]
    exact ⟨0, by exact_mod_cast isNearest_zero, stands_zero⟩
  · have sign : compare (n.toNat : ℤ) 0 = .gt := Int.compare_eq_gt.mpr (Int.ofNat_lt.mpr pos)
    rw [sign]
    simp only [UnpackedFloat.round, targetExponent_eq, decreaseExponent, zero_sub, Int.toNat_natCast]
    refine stands_shifted pos ?_ bound
    simp only [target]
    omega

/-- A natural becomes the number nearest to it. -/
theorem stands_ofNat (n : ℕ) (bound : (n : ℚ) ≤ largest) :
    ∃ v, IsNearest n v ∧ Stands (Float.ofNat n) v := by
  by_cases fits : n < 2 ^ 53
  · have word : n.toUInt64.toNat = n :=
      UInt64.toNat_ofNat_of_lt' (Nat.lt_trans fits (by decide))
    have converted : Float.ofNat n = n.toUInt64.toFloat * Float.ofBits 0x3FF0000000000000 := by
      show Float.ofScientific n false 0 = _
      rw [Float.ofScientific, dif_pos ⟨fits, by decide⟩]
      rfl
    have one : Stands (Float.ofBits 0x3FF0000000000000) 1 := stands_one
    rw [converted]
    obtain ⟨v, nearest, stands⟩ := stands_toFloat n.toUInt64 (by rwa [word])
    rw [word] at nearest
    have below : v ≤ largest := nearest.mono isNearest_largest bound
    obtain ⟨u, nearest', stands'⟩ := stands_mul stands one (by rwa [mul_one])
    rw [mul_one] at nearest'
    exact ⟨u, nearest'.unique stands.isNearest ▸ nearest, stands'⟩
  · have converted : Float.ofNat n = Float.ofModel (Float.Model.ofScientific n 0) := by
      show Float.ofScientific n false 0 = _
      rw [Float.ofScientific, dif_neg fun h => fits h.1]
      rfl
    have pos : 0 < n := by omega
    have rounded : UnpackedFloat.ofScientific Format.binary64 n 0 =
        roundWithAccuracy Format.binary64 .positive (n <<< 53) (-(53 : ℕ)) .exact := by
      rw [Counts.ofScientific_zero _ pos, mul, Nat.mul_one, Int.add_zero]
      rfl
    rw [converted, Float.Model.ofScientific, rounded]
    exact stands_shifted pos (by omega) bound

theorem exists_canonical {a : ℕ} (narrow : a < 2 ^ 53) (j : ℕ) :
    ∃ m t, Canonical m t ∧ (m * 2 ^ t : ℚ) = a * 2 ^ j := by
  rcases Nat.eq_zero_or_pos a with rfl | pos
  · exact ⟨0, -1074, ⟨by norm_num, le_rfl, .inl rfl⟩, by simp⟩
  · have width : a.log2 ≤ 52 := Nat.le_of_lt_succ ((Nat.log2_lt pos.ne').mpr narrow)
    have leading : (a <<< (52 - a.log2)).log2 = 52 := by
      rw [Counts.log2_shiftLeft pos]
      omega
    have some : a <<< (52 - a.log2) ≠ 0 := (Nat.shiftLeft_pos_iff.mpr pos).ne'
    have bounds := (Nat.log2_eq_iff some).mp leading
    refine ⟨a <<< (52 - a.log2), j - (52 - a.log2 : ℕ), ⟨bounds.2, by omega, .inr bounds.1⟩, ?_⟩
    rw [Nat.shiftLeft_eq, zpow_sub₀ (by norm_num), zpow_natCast, zpow_natCast]
    push_cast
    field_simp

/-- A natural with 53 bits before its trailing zeros is exact. -/
theorem stands_ofNat_exact {n a : ℕ} (narrow : a < 2 ^ 53) (j : ℕ) (split : n = a * 2 ^ j)
    (bound : (n : ℚ) ≤ largest) : Stands (Float.ofNat n) n := by
  obtain ⟨v, nearest, stands⟩ := stands_ofNat n bound
  obtain ⟨m, t, canonical, same⟩ := exists_canonical narrow j
  have self : IsNearest n n := by
    have exact : (n : ℚ) = m * 2 ^ t := by
      rw [same, split]
      push_cast
      rfl
    rw [exact]
    exact canonical.isNearest
  rwa [nearest.unique self] at stands

end NeighborGraph.Nearest
