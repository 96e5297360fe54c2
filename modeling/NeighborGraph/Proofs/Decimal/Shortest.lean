import NeighborGraph.Decimal.Shortest
import NeighborGraph.Proofs.Binary.Numbers

/-!
# Shortest decimals read back

A finite number other than zero is nearest to its shortest decimal (`isNearest_shortest`), so reading the
decimal exactly gives the number back.  Seventeen digits always suffice (`exists_pick`): the grid of 17
digits is finer than the reals that round to a number are apart.
-/

namespace NeighborGraph

open Nearest

/-! ### Values -/

/-- The fraction a decimal stands for. -/
def Decimal.Digits.value (d : Decimal.Digits) : ℚ := d.digits * 10 ^ d.exponent

/-- The fraction a binary stands for. -/
def Binary.value (b : Binary) : ℚ := b.significand * 2 ^ b.exponent

theorem ten_zpow_pos (t : ℤ) : (0 : ℚ) < 10 ^ t := zpow_pos (by norm_num) t

/-- An exponent of either sign comes apart into two natural powers. -/
theorem zpow_mul_pow_toNat {b : ℚ} (some : b ≠ 0) (t : ℤ) : b ^ t * b ^ (-t).toNat = b ^ t.toNat := by
  rw [← zpow_natCast, ← zpow_natCast, ← zpow_add₀ some]
  congr 1
  omega

namespace Binary

open Decimal

variable {b : Binary} {d : Digits}

/-! ### Intervals -/

/-- Both sides are brought to a common unit. -/
theorem scale_eq (x : ℕ) : ∃ unit : ℚ, 0 < unit ∧
    ((b.scale x d).1 : ℚ) = x * 2 ^ (b.exponent - 2) * unit ∧
    ((b.scale x d).2 : ℚ) = d.value * unit := by
  refine ⟨2 ^ (-(b.exponent - 2)).toNat * 10 ^ (-d.exponent).toNat, by positivity, ?_, ?_⟩
  · have power := zpow_mul_pow_toNat (b := 2) (by norm_num) (b.exponent - 2)
    simp only [scale, Nat.pow_eq]
    push_cast
    rw [← power]
    ring
  · have power := zpow_mul_pow_toNat (b := 10) (by norm_num) d.exponent
    simp only [scale, Nat.pow_eq, Digits.value]
    push_cast
    rw [← power]
    ring

theorem scale_le_iff (x : ℕ) :
    (b.scale x d).1 ≤ (b.scale x d).2 ↔ (x * 2 ^ (b.exponent - 2) : ℚ) ≤ d.value := by
  obtain ⟨unit, pos, left, right⟩ := scale_eq (b := b) (d := d) x
  rw [← Nat.cast_le (α := ℚ), left, right, mul_le_mul_iff_left₀ pos]

theorem le_scale_iff (x : ℕ) :
    (b.scale x d).2 ≤ (b.scale x d).1 ↔ d.value ≤ (x * 2 ^ (b.exponent - 2) : ℚ) := by
  obtain ⟨unit, pos, left, right⟩ := scale_eq (b := b) (d := d) x
  rw [← Nat.cast_le (α := ℚ), left, right, mul_le_mul_iff_left₀ pos]

/-- The interval of the reals that round to a number, with its ends where the significand is even. -/
structure Covers (b : Binary) (r : ℚ) : Prop where
  low : (b.lower : ℚ) * 2 ^ (b.exponent - 2) ≤ r
  high : r ≤ b.upper * 2 ^ (b.exponent - 2)
  ends : r = b.lower * 2 ^ (b.exponent - 2) ∨ r = b.upper * 2 ^ (b.exponent - 2) →
    b.significand % 2 = 0

theorem readsBack_iff : b.readsBack d = true ↔ b.Covers d.value := by
  have opened : b.readsBack d = if b.significand % 2 = 0
      then decide ((b.scale b.lower d).1 ≤ (b.scale b.lower d).2)
        && decide ((b.scale b.upper d).2 ≤ (b.scale b.upper d).1)
      else decide ((b.scale b.lower d).1 < (b.scale b.lower d).2)
        && decide ((b.scale b.upper d).2 < (b.scale b.upper d).1) := rfl
  have low := scale_le_iff (b := b) (d := d) b.lower
  have low' := le_scale_iff (b := b) (d := d) b.lower
  have high := le_scale_iff (b := b) (d := d) b.upper
  have high' := scale_le_iff (b := b) (d := d) b.upper
  rw [opened]
  by_cases even : b.significand % 2 = 0
  · rw [if_pos even, Bool.and_eq_true, decide_eq_true_iff, decide_eq_true_iff, low, high]
    exact ⟨fun h => ⟨h.1, h.2, fun _ => even⟩, fun h => ⟨h.low, h.high⟩⟩
  · rw [if_neg even, Bool.and_eq_true, decide_eq_true_iff, decide_eq_true_iff, ← not_le, ← not_le,
      low', high', not_le, not_le]
    refine ⟨fun h => ⟨h.1.le, h.2.le, ?_⟩, fun h => ⟨?_, ?_⟩⟩
    · rintro (same | same)
      · exact absurd same h.1.ne'
      · exact absurd same h.2.ne
    · exact lt_of_le_of_ne h.low fun same => even (h.ends (.inl same.symm))
    · exact lt_of_le_of_ne h.high fun same => even (h.ends (.inr same))

/-- The significand and the exponent are those of a number other than zero. -/
structure Proper (b : Binary) : Prop where
  canonical : Canonical b.significand b.exponent
  some : b.significand ≠ 0
  lowest : b.lowest = true ↔ b.significand = 2 ^ 52 ∧ b.exponent ≠ -1074

/-- The unit of the interval is a quarter of the last place. -/
theorem quarter (t : ℤ) : (2 : ℚ) ^ t = 4 * 2 ^ (t - 2) := by
  rw [zpow_sub₀ (by norm_num)]
  norm_num
  ring

theorem upper_eq (b : Binary) :
    (b.upper * 2 ^ (b.exponent - 2) : ℚ) = (b.significand + 1 / 2) * 2 ^ b.exponent := by
  rw [quarter b.exponent, upper, center]
  push_cast
  ring

theorem lower_eq (h : b.Proper) : (b.lower * 2 ^ (b.exponent - 2) : ℚ) =
    (b.significand - if b.lowest then 1 / 4 else 1 / 2) * 2 ^ b.exponent := by
  have some := Nat.pos_of_ne_zero h.some
  have least : (if b.lowest then 1 else 2) ≤ b.center := by
    rw [center]
    split <;> omega
  rw [quarter b.exponent, lower, Nat.cast_sub least, center]
  split <;> push_cast <;> ring

theorem Covers.past {r : ℚ} (h : b.Covers r) (proper : b.Proper) : r < 2 ^ 53 * 2 ^ b.exponent := by
  have width : (b.significand : ℚ) + 1 ≤ 2 ^ 53 := by exact_mod_cast proper.canonical.width
  have high := h.high
  rw [upper_eq] at high
  exact lt_of_le_of_lt high (mul_lt_mul_of_pos_right (by linarith) (two_zpow_pos b.exponent))

theorem Covers.above {r : ℚ} (h : b.Covers r) : r / 2 ^ b.exponent ≤ b.significand + 1 / 2 := by
  have high := h.high
  rw [upper_eq] at high
  exact (div_le_iff₀ (two_zpow_pos b.exponent)).mpr high

/-- The interval reaches half a place to either side. -/
theorem Covers.isNearest_inner {r : ℚ} (h : b.Covers r) (proper : b.Proper)
    (inner : b.lowest = false) : IsNearest r b.value := by
  have unit := two_zpow_pos b.exponent
  have low := h.low
  have ends := h.ends
  rw [upper_eq] at ends
  rw [lower_eq proper, inner, if_neg Bool.false_ne_true] at low ends
  have below : (b.significand : ℚ) - 1 / 2 ≤ r / 2 ^ b.exponent := (le_div_iff₀ unit).mpr low
  refine ⟨b.significand, b.exponent,
    ⟨⟨proper.canonical.least, ?_, h.past proper⟩, below, h.above, ?_⟩, rfl⟩
  · by_cases least : b.exponent = -1074
    · exact .inl least
    · right
      have full := proper.canonical.full.resolve_left least
      have other : b.significand ≠ 2 ^ 52 := by
        intro same
        rw [proper.lowest.mpr ⟨same, least⟩] at inner
        cases inner
      have more : (2 : ℚ) ^ 52 + 1 ≤ b.significand := by
        exact_mod_cast lt_of_le_of_ne full other.symm
      exact le_trans (mul_le_mul_of_nonneg_right (by linarith) unit.le) low
  · rw [div_eq_iff unit.ne', div_eq_iff unit.ne']
    exact ends

/-- The interval of the first number of an exponent reaches half as far down, where the places are half
as wide. -/
theorem Covers.isNearest_lowest {r : ℚ} (h : b.Covers r) (proper : b.Proper)
    (lowest : b.lowest = true) : IsNearest r b.value := by
  have unit := two_zpow_pos b.exponent
  have past := h.past proper
  have above := h.above
  have low := h.low
  obtain ⟨first, coarse⟩ := proper.lowest.mp lowest
  rw [lower_eq proper, lowest, if_pos rfl, first] at low
  rw [first] at above
  have least := proper.canonical.least
  have value : b.value = (2 ^ 52 : ℕ) * 2 ^ b.exponent := by rw [value, first]
  push_cast at low above
  by_cases within : 2 ^ 52 * 2 ^ b.exponent ≤ r
  · have below : (2 : ℚ) ^ 52 ≤ r / 2 ^ b.exponent := (le_div_iff₀ unit).mpr within
    refine ⟨2 ^ 52, b.exponent, ⟨⟨least, .inr within, past⟩, ?_⟩, value⟩
    exact rounded_of_even (by push_cast; linarith) (by push_cast; linarith) (by norm_num)
  · have finer : (2 : ℚ) ^ b.exponent = 2 ^ 1 * 2 ^ (b.exponent - 1) := by
      rw [← two_zpow_add]
      congr 1
      omega
    have unit' := two_zpow_pos (b.exponent - 1)
    rw [finer] at low within
    refine ⟨2 ^ 53, b.exponent - 1, ⟨⟨by omega, .inr ?_, ?_⟩, ?_⟩, ?_⟩
    · linarith
    · linarith
    · refine rounded_of_even ?_ ?_ (by norm_num)
      · rw [le_div_iff₀ unit']
        push_cast
        linarith
      · rw [div_le_iff₀ unit']
        push_cast
        linarith
    · rw [value, finer]
      push_cast
      ring

/-- Everything in the interval rounds to the number. -/
theorem Covers.isNearest {r : ℚ} (h : b.Covers r) (proper : b.Proper) : IsNearest r b.value := by
  cases lowest : b.lowest with
  | false => exact h.isNearest_inner proper lowest
  | true => exact h.isNearest_lowest proper lowest

/-! ### The leading digit -/

/-- The number of digits of a natural. -/
theorem digits_bounds {n : ℕ} (pos : 0 < n) :
    10 ^ ((Nat.toDigits 10 n).length - 1) ≤ n ∧ n < 10 ^ (Nat.toDigits 10 n).length := by
  have some : 0 < (Nat.toDigits 10 n).length := Nat.length_toDigits_pos
  refine ⟨?_, (Nat.length_toDigits_le_iff (by norm_num) some).mp le_rfl⟩
  by_cases one : (Nat.toDigits 10 n).length = 1
  · rw [one]
    exact pos
  · by_contra less
    have short := (Nat.length_toDigits_le_iff (by norm_num) (by omega)).mpr (Nat.lt_of_not_le less)
    omega

/-- The decimal place of a number that is a natural and less than one more in units of `10 ^ s`. -/
theorem place_bounds {n : ℕ} {r : ℚ} (pos : 0 < n) (s : ℕ) (low : (n : ℚ) ≤ r * 10 ^ s)
    (high : r * 10 ^ s < n + 1) :
    10 ^ (((Nat.toDigits 10 n).length : ℤ) - 1 - s) ≤ r ∧
      r < 10 ^ (((Nat.toDigits 10 n).length : ℤ) - 1 - s + 1) := by
  obtain ⟨least, most⟩ := digits_bounds pos
  have some : 0 < (Nat.toDigits 10 n).length := Nat.length_toDigits_pos
  have unit : (0 : ℚ) < 10 ^ s := by positivity
  have least : (10 : ℚ) ^ ((Nat.toDigits 10 n).length - 1) ≤ n := by exact_mod_cast least
  have most : (n : ℚ) + 1 ≤ 10 ^ (Nat.toDigits 10 n).length := by exact_mod_cast most
  generalize (Nat.toDigits 10 n).length = l at *
  have power : (10 : ℚ) ^ ((l : ℤ) - 1 - s) = 10 ^ (l - 1) / 10 ^ s := by
    rw [zpow_sub₀ (by norm_num), zpow_natCast, ← zpow_natCast (10 : ℚ) (l - 1)]
    congr 2
    omega
  have power' : (10 : ℚ) ^ ((l : ℤ) - 1 - s + 1) = 10 ^ l / 10 ^ s := by
    rw [show (l : ℤ) - 1 - s + 1 = l - s by ring, zpow_sub₀ (by norm_num), zpow_natCast, zpow_natCast]
  rw [power, power', div_le_iff₀ unit, lt_div_iff₀ unit]
  exact ⟨least.trans low, high.trans_le most⟩

theorem div_bounds (a : ℕ) {d : ℕ} (pos : 0 < d) :
    ((a / d : ℕ) : ℚ) ≤ a / d ∧ (a / d : ℚ) < (a / d : ℕ) + 1 := by
  have unit : (0 : ℚ) < d := by exact_mod_cast pos
  refine ⟨Nat.cast_div_le, ?_⟩
  rw [div_lt_iff₀ unit, mul_comm]
  exact_mod_cast Nat.lt_mul_div_succ a pos

/-- A decimal place is worth more than three binary ones. -/
theorem two_pow_le {k s : ℕ} (h : 8 * k ≤ 25 * s) : 2 ^ k ≤ 10 ^ s := by
  refine (Nat.pow_le_pow_iff_left (n := 8) (by norm_num)).mp ?_
  calc (2 ^ k) ^ 8 = 2 ^ (8 * k) := by rw [← pow_mul, Nat.mul_comm]
    _ ≤ 2 ^ (25 * s) := Nat.pow_le_pow_right (by norm_num) h
    _ = (2 ^ 25) ^ s := pow_mul 2 25 s
    _ ≤ (10 ^ 8) ^ s := Nat.pow_le_pow_left (by norm_num) s
    _ = (10 ^ s) ^ 8 := by rw [← pow_mul, ← pow_mul, Nat.mul_comm]

theorem ten_zpow_neg_le {k s : ℕ} (h : 8 * k ≤ 25 * s) : (10 : ℚ) ^ (-s : ℤ) ≤ 2 ^ (-k : ℤ) := by
  rw [zpow_neg, zpow_neg, zpow_natCast, zpow_natCast]
  refine inv_anti₀ (by positivity) ?_
  exact_mod_cast two_pow_le h

theorem leadingPlace_bounds (h : b.Proper) :
    10 ^ b.leadingPlace ≤ b.value ∧ b.value < 10 ^ (b.leadingPlace + 1) := by
  have some := Nat.pos_of_ne_zero h.some
  have least := h.canonical.least
  by_cases whole : 0 ≤ b.exponent
  · have exponent : (2 : ℚ) ^ b.exponent = 2 ^ b.exponent.toNat := by
      rw [← zpow_natCast, Int.toNat_of_nonneg whole]
    have natural : b.value = (b.significand * 2 ^ b.exponent.toNat : ℕ) := by
      rw [value, exponent]
      push_cast
      rfl
    have bounds := place_bounds (r := b.value) (n := b.significand * 2 ^ b.exponent.toNat)
      (by positivity) 0 (by rw [natural]; simp) (by rw [natural]; simp)
    rw [leadingPlace, if_pos whole, Nat.pow_eq]
    simpa using bounds
  · obtain ⟨k, exponent⟩ : ∃ k : ℕ, b.exponent = -k := ⟨(-b.exponent).toNat, by omega⟩
    have size : (-b.exponent).toNat = k := by omega
    have opened (s : ℕ) (power : s = 344) : b.leadingPlace = ((Nat.toDigits 10
        (b.significand * Nat.pow 10 s / Nat.pow 2 (-b.exponent).toNat)).length : ℤ) - 1 - s := by
      subst power
      exact if_neg whole
    obtain ⟨s, power⟩ : ∃ s, s = 344 := ⟨344, rfl⟩
    have unit := Nat.two_pow_pos k
    have enough := two_pow_le (k := k) (s := s) (by omega)
    rw [opened s power, size, Nat.pow_eq, Nat.pow_eq]
    have fraction : b.value * 10 ^ s = ((b.significand * 10 ^ s : ℕ) : ℚ) / (2 ^ k : ℕ) := by
      rw [value, exponent, zpow_neg, zpow_natCast]
      push_cast
      ring
    obtain ⟨low, high⟩ := div_bounds (b.significand * 10 ^ s) unit
    rw [← fraction] at low high
    exact place_bounds (Nat.div_pos (enough.trans (Nat.le_mul_of_pos_left _ some)) unit) s low high

/-! ### The grid of a place -/

theorem center_eq (b : Binary) : (b.center * 2 ^ (b.exponent - 2) : ℚ) = b.value := by
  rw [value, quarter b.exponent, center]
  push_cast
  ring

/-- A number lies between two neighbours on the grid of a place. -/
theorem floorAt_bounds (b : Binary) (place : ℤ) :
    ((b.floorAt place).digits : ℚ) * 10 ^ place ≤ b.value ∧
      b.value < ((b.floorAt place).digits + 1) * 10 ^ place := by
  obtain ⟨unit, pos, left, right⟩ := scale_eq (b := b) (d := ⟨1, place⟩) b.center
  have grid := ten_zpow_pos place
  have one : (⟨1, place⟩ : Digits).value = 10 ^ place := by simp [Digits.value]
  rw [center_eq] at left
  rw [one] at right
  have some : 0 < (b.scale b.center ⟨1, place⟩).2 := by
    have : (0 : ℚ) < ((b.scale b.center ⟨1, place⟩).2 : ℚ) := by
      rw [right]
      exact mul_pos grid pos
    exact_mod_cast this
  obtain ⟨low, high⟩ := div_bounds (b.scale b.center ⟨1, place⟩).1 some
  rw [left, right, mul_div_mul_right _ _ pos.ne'] at low high
  rw [le_div_iff₀ grid] at low
  rw [div_lt_iff₀ grid] at high
  exact ⟨low, high⟩

/-- The other neighbour on the grid. -/
def ceilAt (b : Binary) (place : ℤ) : Digits :=
  { b.floorAt place with digits := (b.floorAt place).digits + 1 }

theorem ceilAt_value (b : Binary) (place : ℤ) :
    (b.ceilAt place).value = (b.floorAt place).value + 10 ^ place := by
  simp only [ceilAt, Digits.value, floorAt]
  push_cast
  ring

/-- What is strictly inside the interval reads back. -/
theorem covers_of_inside (h : b.Proper) {r : ℚ}
    (low : (b.significand - if b.lowest then 1 / 4 else 1 / 2) * 2 ^ b.exponent < r)
    (high : r < (b.significand + 1 / 2) * 2 ^ b.exponent) : b.Covers r := by
  rw [← lower_eq h] at low
  rw [← upper_eq] at high
  refine ⟨low.le, high.le, ?_⟩
  rintro (same | same)
  · exact absurd same low.ne'
  · exact absurd same high.ne

/-- The grid of 17 digits is finer than the interval is wide. -/
theorem grid_lt (h : b.Proper) : (10 : ℚ) ^ (b.leadingPlace - 16) <
    (1 / 2 + if b.lowest then 1 / 4 else 1 / 2) * 2 ^ b.exponent := by
  have unit := two_zpow_pos b.exponent
  have leading := (leadingPlace_bounds h).1
  have grid : (10 : ℚ) ^ b.leadingPlace = 10 ^ 16 * 10 ^ (b.leadingPlace - 16) := by
    rw [zpow_sub₀ (by norm_num)]
    norm_num
    ring
  rw [grid, value] at leading
  cases lowest : b.lowest with
  | false =>
    have width : (b.significand : ℚ) < 2 ^ 53 := by exact_mod_cast h.canonical.width
    have size := mul_lt_mul_of_pos_right width unit
    simp only [Bool.false_eq_true, if_false]
    linarith
  | true =>
    rw [(h.lowest.mp lowest).1] at leading
    push_cast at leading
    simp only [if_true]
    linarith

/-- On the grid of 17 digits one neighbour reads back. -/
theorem exists_covers (h : b.Proper) : b.Covers (b.floorAt (b.leadingPlace - 16)).value ∨
    b.Covers (b.ceilAt (b.leadingPlace - 16)).value := by
  have unit := two_zpow_pos b.exponent
  have fine := grid_lt h
  obtain ⟨low, high⟩ := floorAt_bounds b (b.leadingPlace - 16)
  have down : (b.floorAt (b.leadingPlace - 16)).value ≤ b.value := low
  have up : b.value < (b.ceilAt (b.leadingPlace - 16)).value := by
    rw [ceilAt_value]
    have : (b.floorAt (b.leadingPlace - 16)).value =
      (b.floorAt (b.leadingPlace - 16)).digits * 10 ^ (b.leadingPlace - 16) := rfl
    linarith
  rw [value] at down up
  by_contra none
  rw [not_or] at none
  have share : (0 : ℚ) < if b.lowest then 1 / 4 else 1 / 2 := by split <;> norm_num
  -- then the two neighbours are at the ends of the interval or past them
  have below : (b.floorAt (b.leadingPlace - 16)).value ≤
      (b.significand - if b.lowest then 1 / 4 else 1 / 2) * 2 ^ b.exponent := by
    by_contra inside
    refine none.1 (covers_of_inside h (lt_of_not_ge inside) (lt_of_le_of_lt down ?_))
    exact mul_lt_mul_of_pos_right (by linarith) unit
  have above : (b.significand + 1 / 2) * 2 ^ b.exponent ≤ (b.ceilAt (b.leadingPlace - 16)).value := by
    by_contra inside
    refine none.2 (covers_of_inside h (lt_of_le_of_lt ?_ up) (lt_of_not_ge inside))
    exact mul_le_mul_of_nonneg_right (by linarith) unit.le
  rw [ceilAt_value] at above
  linarith

/-! ### Picking -/

/-- What stands for the number on a grid is a neighbour that reads back. -/
theorem pick_cases (tie : TieRule) (b : Binary) (place : ℤ) :
    (b.pick tie place = none ∧ b.readsBack (b.floorAt place) = false ∧
      b.readsBack (b.ceilAt place) = false) ∨
    ∃ d, b.pick tie place = some d ∧ b.readsBack d = true ∧
      (d = b.floorAt place ∨ d = b.ceilAt place) := by
  unfold pick
  cases down : b.readsBack (b.floorAt place) with
  | false =>
    cases up : b.readsBack (b.ceilAt place) with
    | false =>
      left
      simp only [ceilAt] at up
      simp only [down, up, and_self]
    | true =>
      right
      refine ⟨b.ceilAt place, ?_, up, .inr rfl⟩
      simp only [ceilAt] at up
      simp only [down, up, ceilAt]
  | true =>
    right
    cases up : b.readsBack (b.ceilAt place) with
    | false =>
      refine ⟨b.floorAt place, ?_, down, .inl rfl⟩
      simp only [ceilAt] at up
      simp only [down, up]
    | true =>
      have up' := up
      simp only [ceilAt] at up'
      simp only [down, up']
      -- both read back, so whichever is taken does
      split
      · exact ⟨_, rfl, down, .inl rfl⟩
      · split
        · exact ⟨_, rfl, up, .inr rfl⟩
        · cases tie with
          | upward => exact ⟨_, rfl, up, .inr rfl⟩
          | even =>
            dsimp only
            split
            · exact ⟨_, rfl, down, .inl rfl⟩
            · exact ⟨_, rfl, up, .inr rfl⟩

/-- The decimals of a grid, up to the next power of ten. -/
theorem grid_bounds (h : b.Proper) {place : ℤ} (first : b.leadingPlace - 16 ≤ place)
    (last : place ≤ b.leadingPlace) (grid : d = b.floorAt place ∨ d = b.ceilAt place) :
    d.exponent = place ∧ d.digits ≤ 10 ^ 17 ∧ d.value ≤ 10 ^ (b.leadingPlace + 1) := by
  obtain ⟨j, rfl⟩ : ∃ j : ℕ, place = b.leadingPlace + 1 - j :=
    ⟨(b.leadingPlace + 1 - place).toNat, by omega⟩
  have unit := ten_zpow_pos (b.leadingPlace + 1 - j)
  have power : (10 : ℚ) ^ (b.leadingPlace + 1) = 10 ^ j * 10 ^ (b.leadingPlace + 1 - j) := by
    rw [← zpow_natCast, ← zpow_add₀ (by norm_num)]
    congr 1
    omega
  have below := lt_of_le_of_lt (floorAt_bounds b (b.leadingPlace + 1 - j)).1 (leadingPlace_bounds h).2
  rw [power] at below ⊢
  have next : (b.floorAt (b.leadingPlace + 1 - j)).digits + 1 ≤ 10 ^ j := by
    exact_mod_cast lt_of_mul_lt_mul_right below unit.le
  have wide : 10 ^ j ≤ 10 ^ 17 := Nat.pow_le_pow_right (by norm_num) (by omega)
  have small : d.digits ≤ 10 ^ j ∧ d.exponent = b.leadingPlace + 1 - j := by
    rcases grid with rfl | rfl
    · exact ⟨Nat.le_of_succ_le next, rfl⟩
    · exact ⟨next, rfl⟩
  refine ⟨small.2, small.1.trans wide, ?_⟩
  have digits : (d.digits : ℚ) ≤ 10 ^ j := by exact_mod_cast small.1
  rw [Digits.value, small.2]
  exact mul_le_mul_of_nonneg_right digits unit.le

end Binary

namespace Decimal

open Binary

/-- Dropping zeros keeps the value. -/
theorem Digits.strip_spec (fuel : ℕ) (d : Digits) : (d.strip fuel).value = d.value ∧
    (d.strip fuel).digits ≤ d.digits ∧ d.exponent ≤ (d.strip fuel).exponent := by
  induction fuel generalizing d with
  | zero => exact ⟨rfl, le_rfl, le_rfl⟩
  | succ fuel ih =>
    rw [strip]
    split
    · next zero =>
      obtain ⟨value, digits, exponent⟩ := ih ⟨d.digits / 10, d.exponent + 1⟩
      refine ⟨?_, digits.trans (Nat.div_le_self _ _), by simp at exponent; omega⟩
      have tenth : (d.digits : ℚ) = 10 * (d.digits / 10 : ℕ) := by
        exact_mod_cast (show d.digits = 10 * (d.digits / 10) by omega)
      rw [value, Digits.value, Digits.value, tenth, zpow_add_one₀ (by norm_num)]
      ring
    · exact ⟨rfl, le_rfl, le_rfl⟩

variable {b : Binary}

/-- The shortest decimal is found on a grid of 17 digits or fewer. -/
theorem exists_shortest (h : b.Proper) (tie : TieRule) : ∃ place d,
    b.leadingPlace - 16 ≤ place ∧ place ≤ b.leadingPlace ∧
      (d = b.floorAt place ∨ d = b.ceilAt place) ∧ b.Covers d.value ∧
      shortest tie b = d.strip 17 := by
  rw [shortest]
  cases found : (List.range 17).findSome? fun (extra : ℕ) => b.pick tie (b.leadingPlace - extra) with
  | none =>
    have last := List.findSome?_eq_none_iff.mp found 16 (by simp)
    rcases pick_cases tie b (b.leadingPlace - (16 : ℕ)) with ⟨-, down, up⟩ | ⟨d, picked, -⟩
    · rcases exists_covers h with covers | covers
      · exact absurd (readsBack_iff.mpr covers) (ne_true_of_eq_false down)
      · exact absurd (readsBack_iff.mpr covers) (ne_true_of_eq_false up)
    · rw [last] at picked
      cases picked
  | some d =>
    obtain ⟨extra, range, picked⟩ := List.exists_of_findSome?_eq_some found
    have range := List.mem_range.mp range
    rcases pick_cases tie b (b.leadingPlace - extra) with ⟨none, -⟩ | ⟨d', picked', covers, grid⟩
    · rw [none] at picked
      cases picked
    · rw [picked', Option.some_inj] at picked
      subst picked
      exact ⟨b.leadingPlace - extra, d', by omega, by omega, grid, readsBack_iff.mp covers, rfl⟩

theorem covers_shortest (h : b.Proper) (tie : TieRule) : b.Covers (shortest tie b).value := by
  obtain ⟨place, d, -, -, -, covers, found⟩ := exists_shortest h tie
  rw [found, (d.strip_spec 17).1]
  exact covers

/-- Reading the shortest decimal of a number exactly gives the number back. -/
theorem isNearest_shortest (h : b.Proper) (tie : TieRule) :
    IsNearest (shortest tie b).value b.value :=
  (covers_shortest h tie).isNearest h

/-- The size of a shortest decimal. -/
theorem shortest_bounds (h : b.Proper) (tie : TieRule) :
    b.leadingPlace - 16 ≤ (shortest tie b).exponent ∧ (shortest tie b).digits ≤ 10 ^ 17 ∧
      (shortest tie b).value ≤ 10 ^ (b.leadingPlace + 1) := by
  obtain ⟨place, d, first, last, grid, -, found⟩ := exists_shortest h tie
  obtain ⟨exponent, digits, value⟩ := grid_bounds h first last grid
  obtain ⟨kept, fewer, later⟩ := d.strip_spec 17
  rw [found]
  exact ⟨by omega, fewer.trans digits, kept ▸ value⟩

/-- The interval of a number starts half a place below it or later. -/
theorem half_below_shortest (h : b.Proper) (tie : TieRule) :
    (b.significand - 1 / 2) * 2 ^ b.exponent ≤ (shortest tie b).value := by
  have share : (if b.lowest then 1 / 4 else 1 / 2 : ℚ) ≤ 1 / 2 := by split <;> norm_num
  have low := (covers_shortest h tie).low
  rw [lower_eq h] at low
  exact le_trans (mul_le_mul_of_nonneg_right (by linarith) (two_zpow_pos _).le) low

theorem shortest_value_pos (h : b.Proper) (tie : TieRule) : 0 < (shortest tie b).value := by
  have some : (1 : ℚ) ≤ b.significand := by exact_mod_cast Nat.pos_of_ne_zero h.some
  exact lt_of_lt_of_le (mul_pos (by linarith) (two_zpow_pos b.exponent)) (half_below_shortest h tie)

/-- Of the least number the shortest decimal is more than what rounds to zero, and of every other one,
too. -/
theorem le_shortest (h : b.Proper) : 3 / 2 * 2 ^ (-1075 : ℤ) ≤ (shortest .even b).value := by
  by_cases least : b.significand = 1
  · have exponent : b.exponent = -1074 := h.canonical.full.resolve_right (by rw [least]; norm_num)
    have lowest : b.lowest = false := by
      rw [Bool.eq_false_iff]
      intro lowest
      have := (h.lowest.mp lowest).1
      omega
    have five : shortest .even b = ⟨5, -324⟩ := by
      obtain ⟨significand, exponent, lowest⟩ := b
      subst least exponent lowest
      decide +kernel
    have powers {p q : ℕ} (order : 3 * 10 ^ p ≤ 10 * 2 ^ q) :
        (3 / 2 * 2 ^ (-q : ℤ) : ℚ) ≤ 5 * 10 ^ (-p : ℤ) := by
      have order : (3 * 10 ^ p : ℚ) ≤ 10 * 2 ^ q := by exact_mod_cast order
      rw [zpow_neg, zpow_neg, zpow_natCast, zpow_natCast, ← div_eq_mul_inv, ← div_eq_mul_inv,
        div_le_div_iff₀ (by positivity) (by positivity)]
      linarith
    rw [five]
    exact powers (p := 324) (q := 1075) (by decide +kernel)
  · have more : 2 ≤ b.significand := by
      have := h.some
      omega
    have more : (2 : ℚ) ≤ b.significand := by exact_mod_cast more
    have unit := two_zpow_le (h.canonical.least)
    rw [show (-1074 : ℤ) = -1075 + (1 : ℕ) by rfl, two_zpow_add] at unit
    have := two_zpow_pos (-1075)
    calc (3 / 2 * 2 ^ (-1075 : ℤ) : ℚ) ≤ 3 / 2 * 2 ^ b.exponent := by linarith
      _ ≤ (b.significand - 1 / 2) * 2 ^ b.exponent :=
        mul_le_mul_of_nonneg_right (by linarith) (two_zpow_pos _).le
      _ ≤ (shortest .even b).value := half_below_shortest h .even

/-! ### Numbers below one -/

theorem leadingPlace_neg (h : b.Proper) (below : b.value < 1) : b.leadingPlace < 0 := by
  by_contra nonneg
  have one := one_le_zpow₀ (a := (10 : ℚ)) (by norm_num) (not_lt.mp nonneg)
  have leading := (leadingPlace_bounds h).1
  linarith

/-- The least number has no more than 344 places before its leading digit. -/
theorem le_leadingPlace (h : b.Proper) : -344 ≤ b.leadingPlace := by
  have some : (1 : ℚ) ≤ b.significand := by exact_mod_cast Nat.pos_of_ne_zero h.some
  have unit := two_zpow_pos (-1074)
  have least : (2 : ℚ) ^ (-1074 : ℤ) ≤ b.value :=
    calc (2 : ℚ) ^ (-1074 : ℤ) ≤ 2 ^ b.exponent := two_zpow_le h.canonical.least
      _ ≤ b.significand * 2 ^ b.exponent := le_mul_of_one_le_left (two_zpow_pos _).le some
  have power : (10 : ℚ) ^ (-344 : ℤ) ≤ 2 ^ (-1074 : ℤ) :=
    ten_zpow_neg_le (k := 1074) (s := 344) (by norm_num)
  have order : (10 : ℚ) ^ (-344 : ℤ) < 10 ^ (b.leadingPlace + 1) :=
    lt_of_le_of_lt (power.trans least) (leadingPlace_bounds h).2
  have := (zpow_lt_zpow_iff_right₀ (by norm_num)).mp order
  omega

/-- The shortest decimal of a number below one is below one, too. -/
theorem shortest_of_unit (h : b.Proper) (below : b.value < 1) (tie : TieRule) : ∃ k : ℕ,
    (shortest tie b).exponent = -k ∧ 0 < k ∧ k ≤ 360 ∧ 0 < (shortest tie b).digits ∧
      (shortest tie b).digits < 10 ^ k := by
  obtain ⟨first, -, value⟩ := shortest_bounds h tie
  have least := le_leadingPlace h
  have leading := leadingPlace_neg h below
  have pos := shortest_value_pos h tie
  have nearest := isNearest_shortest h tie
  have small : (shortest tie b).value < 1 := by
    refine lt_of_le_of_ne (value.trans (zpow_le_one_of_nonpos₀ (by norm_num) (by omega))) ?_
    intro one
    rw [one] at nearest
    exact below.ne (nearest.unique stands_one.isNearest)
  generalize shortest tie b = d at *
  have some : 0 < d.digits := by
    by_contra none
    rw [Digits.value, Nat.eq_zero_of_not_pos none] at pos
    simp at pos
  have whole : d.exponent < 0 := by
    by_contra nonneg
    have one := one_le_zpow₀ (a := (10 : ℚ)) (by norm_num) (not_lt.mp nonneg)
    have least : (1 : ℚ) ≤ d.digits := by exact_mod_cast some
    have := one_le_mul_of_one_le_of_one_le least one
    exact absurd small (not_lt.mpr this)
  obtain ⟨k, exponent⟩ : ∃ k : ℕ, d.exponent = -k := ⟨(-d.exponent).toNat, by omega⟩
  refine ⟨k, exponent, by omega, by omega, some, ?_⟩
  rw [Digits.value, exponent, zpow_neg, zpow_natCast, ← div_eq_mul_inv,
    div_lt_one (by positivity)] at small
  exact_mod_cast small

end Decimal

end NeighborGraph
