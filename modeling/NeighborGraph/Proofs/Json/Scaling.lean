import NeighborGraph.Json.Number
import NeighborGraph.Proofs.Binary.Operations

/-!
# Scaling by a power of ten

A decimal of `k` places is read as its digits divided by `10 ^ k`, and both are rounded before the
division; past `10 ^ 308` there are two divisions.  The result need not be the number nearest to the
decimal, but it is off by less than one part in `2 ^ 49` (`exists_scaled`).  It is the nearest one where
the digits and the power of ten are exact (`scaled_exact`).
-/

namespace NeighborGraph.Json

open Nearest

/-! ### Relative errors -/

/-- `b` is off from `a` by `ε` parts of `a`. -/
structure Within (ε a b : ℚ) : Prop where
  low : a * (1 - ε) ≤ b
  high : b ≤ a * (1 + ε)

variable {ε δ γ a b c d : ℚ}

theorem within_of_abs (h : |b - a| ≤ ε * a) : Within ε a b := by
  rw [abs_le] at h
  exact ⟨by linarith, by linarith⟩

theorem Within.trans (h : Within ε a b) (h' : Within δ b c) (pos : 0 ≤ a) (small : 0 ≤ δ ∧ δ ≤ 1)
    (sum : (1 + ε) * (1 + δ) ≤ 1 + γ) (sum' : 1 - γ ≤ (1 - ε) * (1 - δ)) : Within γ a c where
  low := by
    calc a * (1 - γ) ≤ a * ((1 - ε) * (1 - δ)) := mul_le_mul_of_nonneg_left sum' pos
      _ = a * (1 - ε) * (1 - δ) := by ring
      _ ≤ b * (1 - δ) := mul_le_mul_of_nonneg_right h.low (by linarith [small.2])
      _ ≤ c := h'.low
  high := by
    calc c ≤ b * (1 + δ) := h'.high
      _ ≤ a * (1 + ε) * (1 + δ) := mul_le_mul_of_nonneg_right h.high (by linarith [small.1])
      _ = a * ((1 + ε) * (1 + δ)) := by ring
      _ ≤ a * (1 + γ) := mul_le_mul_of_nonneg_left sum pos

theorem Within.div (h : Within ε a b) (h' : Within δ c d) (pos : 0 ≤ a) (pos' : 0 < c)
    (small : 0 ≤ δ ∧ δ < 1) (grown : 0 ≤ γ ∧ γ ≤ 1) (sum : 1 + ε ≤ (1 + γ) * (1 - δ))
    (sum' : (1 - γ) * (1 + δ) ≤ 1 - ε) : Within γ (a / c) (b / d) := by
  have unit : 0 < d := lt_of_lt_of_le (mul_pos pos' (by linarith [small.2])) h'.low
  have nonneg : 0 ≤ a / c := div_nonneg pos pos'.le
  have whole : a / c * c = a := div_mul_cancel₀ a pos'.ne'
  constructor
  · rw [le_div_iff₀ unit]
    calc a / c * (1 - γ) * d ≤ a / c * (1 - γ) * (c * (1 + δ)) :=
          mul_le_mul_of_nonneg_left h'.high (mul_nonneg nonneg (by linarith))
      _ = a / c * c * ((1 - γ) * (1 + δ)) := by ring
      _ = a * ((1 - γ) * (1 + δ)) := by rw [whole]
      _ ≤ a * (1 - ε) := mul_le_mul_of_nonneg_left sum' pos
      _ ≤ b := h.low
  · rw [div_le_iff₀ unit]
    calc b ≤ a * (1 + ε) := h.high
      _ ≤ a * ((1 + γ) * (1 - δ)) := mul_le_mul_of_nonneg_left sum pos
      _ = a / c * c * ((1 + γ) * (1 - δ)) := by rw [whole]
      _ = a / c * (1 + γ) * (c * (1 - δ)) := by ring
      _ ≤ a / c * (1 + γ) * d := mul_le_mul_of_nonneg_left h'.low (mul_nonneg nonneg (by linarith))

/-! ### Naturals -/

theorem pow_le_largest {k : ℕ} (h : k ≤ largestPower) : ((10 ^ k : ℕ) : ℚ) ≤ largest := by
  have whole : largest = (((2 ^ 53 - 1) * 2 ^ 971 : ℕ) : ℚ) := by
    rw [largest, Nat.cast_mul, Nat.cast_pow, Nat.cast_ofNat]
    rfl
  have bound : 10 ^ largestPower ≤ (2 ^ 53 - 1) * 2 ^ 971 := by decide +kernel
  rw [whole, Nat.cast_le]
  exact le_trans (Nat.pow_le_pow_right (by norm_num) h) bound

/-- A natural that becomes a number is off by little more than one part in `2 ^ 53`. -/
theorem within_of_nearest {n : ℕ} {v : ℚ} (pos : 0 < n) (h : IsNearest n v) :
    Within (9 / 2 ^ 56) n v := by
  have some : (1 : ℚ) ≤ n := by exact_mod_cast pos
  have error := h.error (by positivity)
  have least : (2 : ℚ) ^ (-1075 : ℤ) ≤ 2 ^ (-56 : ℤ) := two_zpow_le (by norm_num)
  have unit : (2 : ℚ) ^ (-56 : ℤ) = 1 / 2 ^ 56 := by norm_num
  rw [unit] at least
  refine within_of_abs (le_trans error ?_)
  linarith

theorem one_le_largest : 1 ≤ largest := by
  exact_mod_cast pow_le_largest (Nat.zero_le largestPower)

theorem exists_power {k : ℕ} (h : k ≤ largestPower) :
    ∃ p, Stands (powerOfTen k) p ∧ IsNearest ((10 ^ k : ℕ) : ℚ) p ∧ 1 ≤ p := by
  obtain ⟨p, nearest, stands⟩ := stands_ofNat (10 ^ k) (pow_le_largest h)
  refine ⟨p, stands, nearest, stands_one.isNearest.mono nearest ?_⟩
  exact_mod_cast Nat.one_le_pow k 10 (by norm_num)

/-! ### Divisions -/

/-- The last division leaves a result that is at most one and little off. -/
theorem exists_last {x : Float} {k : ℕ} {p r : ℚ} (close : Within (60 / 2 ^ 56) a r) (pos : 0 ≤ a)
    (stands : Stands x r) (power : Stands (powerOfTen k) p) (nearest : IsNearest ((10 ^ k : ℕ) : ℚ) p)
    (below : r ≤ p) (one : 1 ≤ p) :
    ∃ v, Stands (x / powerOfTen k) v ∧ v ≤ 1 ∧
      |v - a / 10 ^ k| ≤ a / 10 ^ k / 2 ^ 49 + 2 ^ (-1075 : ℤ) := by
  have unit : 0 < p := by linarith
  have small : r / p ≤ 1 := (div_le_one unit).mpr below
  obtain ⟨v, rounded, result⟩ := stands_div stands power unit (small.trans one_le_largest)
  refine ⟨v, result, rounded.mono stands_one.isNearest small, ?_⟩
  have divided : Within (70 / 2 ^ 56) (a / ((10 ^ k : ℕ) : ℚ)) (r / p) :=
    close.div (within_of_nearest (by positivity) nearest) pos (by positivity) (by norm_num)
      (by norm_num) (by norm_num) (by norm_num)
  rw [Nat.cast_pow, Nat.cast_ofNat] at divided
  have error := rounded.error (div_nonneg stands.nonneg unit.le)
  have whole : 0 ≤ a / 10 ^ k := by positivity
  have low := divided.low
  have high := divided.high
  generalize a / 10 ^ k = d at *
  generalize r / p = q at *
  generalize (2 : ℚ) ^ (-1075 : ℤ) = least at *
  rw [abs_le] at error ⊢
  constructor <;> linarith

/-- The first of two divisions is off by little, too. -/
theorem exists_first {w : ℕ} (some : 0 < w) (word : w ≤ 10 ^ largestPower) :
    ∃ r, Stands (Float.ofNat w / powerOfTen largestPower) r ∧ r ≤ 1 ∧
      Within (60 / 2 ^ 56) (w / ((10 ^ largestPower : ℕ) : ℚ)) r := by
  have limit := pow_le_largest (le_refl largestPower)
  obtain ⟨p, power, nearest, one⟩ := exists_power (le_refl largestPower)
  have order : (w : ℚ) ≤ (10 ^ largestPower : ℕ) := by exact_mod_cast word
  obtain ⟨n, nearest', stands⟩ := stands_ofNat w (order.trans limit)
  have unit : 0 < p := by linarith
  have small : n / p ≤ 1 := (div_le_one unit).mpr (nearest'.mono nearest order)
  obtain ⟨r, rounded, result⟩ := stands_div stands power unit (small.trans one_le_largest)
  refine ⟨r, result, rounded.mono stands_one.isNearest small, ?_⟩
  have divided : Within (19 / 2 ^ 56) (w / ((10 ^ largestPower : ℕ) : ℚ)) (n / p) :=
    (within_of_nearest some nearest').div (within_of_nearest (by positivity) nearest) (by positivity)
      (by positivity) (by norm_num) (by norm_num) (by norm_num) (by norm_num)
  -- the quotient may be so small that half of the least number counts
  have least : (2 : ℚ) ^ (-1075 : ℤ) ≤ 32 / 2 ^ 56 * (n / p) := by
    have below : p ≤ largest := nearest.mono isNearest_largest limit
    have above : 1 ≤ n := stands_one.isNearest.mono nearest' (by exact_mod_cast some)
    have extent : largest * 2 ^ (-1075 : ℤ) ≤ 32 / 2 ^ 56 := by
      rw [largest, mul_assoc, ← zpow_add₀ (by norm_num)]
      norm_num
    rw [← mul_div_assoc, le_div_iff₀ unit, mul_comm]
    have := mul_le_mul_of_nonneg_right below (two_zpow_pos (-1075)).le
    linarith
  refine divided.trans (within_of_abs (ε := 40 / 2 ^ 56) ?_) (by positivity) (by norm_num)
    (by norm_num) (by norm_num)
  have error := rounded.error (div_nonneg stands.nonneg unit.le)
  linarith

/-! ### Scaling -/

/-- Up to the largest power of ten there is one division. -/
theorem scaleFrom_near {k fuel : ℕ} (x : Float) (deep : 0 < k) (near : k ≤ largestPower) :
    scaleFrom fuel x (-k) = some (x / powerOfTen k) := by
  have size : (-(k : ℤ)).natAbs = k := by omega
  have below : ¬0 ≤ -(k : ℤ) := by omega
  unfold scaleFrom
  rw [size, if_pos near, if_neg below]

/-- Past it there are two. -/
theorem scaleFrom_far {k fuel : ℕ} {x : Float} (other : (x == 0.0) = false) (deep : 0 < k)
    (near : k ≤ largestPower) : scaleFrom (fuel + 1) x (-(k + largestPower : ℕ)) =
      some (x / powerOfTen largestPower / powerOfTen k) := by
  have size : (-((k + largestPower : ℕ) : ℤ)).natAbs = k + largestPower := by omega
  have far : ¬k + largestPower ≤ largestPower := by omega
  have below : ¬0 ≤ -((k + largestPower : ℕ) : ℤ) := by omega
  have rest : -((k + largestPower : ℕ) : ℤ) + largestPower = -k := by omega
  unfold scaleFrom
  rw [size, if_neg far, other, if_neg Bool.false_ne_true, if_neg below]
  simp only [rest]
  exact scaleFrom_near _ deep near

/-- A decimal of `k` places that is at most one is read as a number that is at most one and little
off. -/
theorem exists_scaled {w k : ℕ} (some : 0 < w) (word : w ≤ 10 ^ largestPower) (below : w ≤ 10 ^ k)
    (deep : 0 < k) (near : k ≤ 2 * largestPower) :
    ∃ x v, scaleFrom k (Float.ofNat w) (-k) = Option.some x ∧ Stands x v ∧ v ≤ 1 ∧
      |v - w / 10 ^ k| ≤ w / 10 ^ k / 2 ^ 49 + 2 ^ (-1075 : ℤ) := by
  have limit := pow_le_largest (le_refl largestPower)
  have order : (w : ℚ) ≤ (10 ^ largestPower : ℕ) := by exact_mod_cast word
  obtain ⟨n, nearest, stands⟩ := stands_ofNat w (order.trans limit)
  have close := within_of_nearest some nearest
  by_cases one : k ≤ largestPower
  · obtain ⟨p, power, nearest', least⟩ := exists_power one
    have wide : Within (60 / 2 ^ 56) w n :=
      ⟨by linarith [close.low], by linarith [close.high]⟩
    obtain ⟨v, result, unit, error⟩ := exists_last wide (by positivity) stands power nearest'
      (nearest.mono nearest' (by exact_mod_cast below)) least
    exact ⟨_, v, scaleFrom_near _ deep one, result, unit, error⟩
  · obtain ⟨j, rfl⟩ : ∃ j, k = j + largestPower := ⟨k - largestPower, by omega⟩
    obtain ⟨r, first, small, close⟩ := exists_first some word
    obtain ⟨p, power, nearest', least⟩ := exists_power (k := j) (by omega)
    obtain ⟨v, result, unit, error⟩ := exists_last close (by positivity) first power nearest'
      (small.trans least) least
    have least := stands_one.isNearest.mono nearest (by exact_mod_cast some)
    have other := stands.beq_zero_of_pos (lt_of_lt_of_le one_pos least)
    have fuel : j + largestPower = (j + 307) + 1 := rfl
    have decimal : (w / ((10 ^ largestPower : ℕ) : ℚ) / 10 ^ j : ℚ) = w / 10 ^ (j + largestPower) := by
      push_cast
      rw [div_div, ← pow_add, Nat.add_comm]
    rw [decimal] at error
    refine ⟨_, v, ?_, result, unit, error⟩
    conv_lhs => rw [fuel]
    exact scaleFrom_far other (by omega) (by omega)

theorem stands_powerOfTen {k : ℕ} (near : k ≤ 22) : Stands (powerOfTen k) ((10 ^ k : ℕ) : ℚ) := by
  have split : 10 ^ k = 5 ^ k * 2 ^ k := Nat.mul_pow 5 2 k
  have narrow : 5 ^ k < 2 ^ 53 :=
    lt_of_le_of_lt (Nat.pow_le_pow_right (by norm_num) near) (by norm_num)
  exact stands_ofNat_exact narrow k split (pow_le_largest (near.trans (by decide)))

/-- Where the digits and the power of ten are exact, the result is the nearest number. -/
theorem scaled_exact {w k : ℕ} {x : Float} {v : ℚ} (digits : w < 2 ^ 53) (deep : 0 < k)
    (near : k ≤ 22) (h : scaleFrom k (Float.ofNat w) (-k) = some x) (stands : Stands x v) :
    IsNearest (w / 10 ^ k) v := by
  rw [scaleFrom_near _ deep (near.trans (by decide)), Option.some_inj] at h
  subst h
  have size : (w : ℚ) ≤ largest := by
    refine le_trans ?_ (pow_le_largest (k := 16) (by decide))
    exact_mod_cast (digits.trans (by norm_num)).le
  have power : (1 : ℚ) ≤ (10 ^ k : ℕ) := by exact_mod_cast Nat.one_le_pow k 10 (by norm_num)
  have bound : (w / (10 ^ k : ℕ) : ℚ) ≤ largest := (div_le_self (by positivity) power).trans size
  obtain ⟨u, nearest, result⟩ := stands_div (stands_ofNat_exact digits 0 (by simp) size)
    (stands_powerOfTen near) (by linarith) bound
  rw [stands.unique result]
  exact_mod_cast nearest

end NeighborGraph.Json
