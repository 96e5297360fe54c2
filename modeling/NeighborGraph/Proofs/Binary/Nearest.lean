import Mathlib.Algebra.Order.Field.Power
import Mathlib.Tactic.FieldSimp
import Mathlib.Tactic.Linarith
import Mathlib.Tactic.NormNum
import Mathlib.Tactic.Positivity
import Mathlib.Tactic.Ring

/-!
# The nearest number with 53 bits

A finite floating-point number without a sign is a natural `m` below `2 ^ 53` times a power of two
`2 ^ t`, where all 53 bits are in use unless `t` is the least exponent there is.  `Rounds q m t` says
that `m * 2 ^ t` is the one nearest to the fraction `q`: `t` is the exponent for numbers of the size of
`q`, and `m` is `q / 2 ^ t` rounded to a natural.  Of two equally near naturals `m` is the even one.

Rounding is monotone (`IsNearest.mono`), so a fraction has one nearest number (`IsNearest.unique`), and
a number is nearest to itself (`Canonical.isNearest`).  It moves a fraction by one part in `2 ^ 53`, or
by half of the least number where that is more (`IsNearest.error`).
-/

namespace NeighborGraph.Nearest

/-! ### Naturals -/

/-- `m` is the natural nearest to `r`; of two equally near ones it is the even one. -/
structure Rounded (r : ℚ) (m : ℕ) : Prop where
  low : (m : ℚ) - 1 / 2 ≤ r
  high : r ≤ m + 1 / 2
  tie : r = m - 1 / 2 ∨ r = m + 1 / 2 → m % 2 = 0

theorem rounded_self (m : ℕ) : Rounded m m where
  low := by linarith
  high := by linarith
  tie := by
    rintro (h | h)
    · linarith
    · linarith

/-- What is strictly inside the half units around a natural is rounded to it. -/
theorem rounded_of_near {r : ℚ} {m : ℕ} (low : (m : ℚ) - 1 / 2 < r) (high : r < m + 1 / 2) :
    Rounded r m where
  low := low.le
  high := high.le
  tie := by
    rintro (h | h)
    · linarith
    · linarith

/-- Of an even natural the ends of the half units are rounded to it, too. -/
theorem rounded_of_even {r : ℚ} {m : ℕ} (low : (m : ℚ) - 1 / 2 ≤ r) (high : r ≤ m + 1 / 2)
    (even : m % 2 = 0) : Rounded r m :=
  ⟨low, high, fun _ => even⟩

theorem Rounded.mono {r s : ℚ} {m n : ℕ} (h : Rounded r m) (h' : Rounded s n) (le : r ≤ s) :
    m ≤ n := by
  by_contra less
  have step : (n : ℚ) + 1 ≤ m := by exact_mod_cast Nat.lt_of_not_le less
  have low := h.low
  have high := h'.high
  -- both fractions are the point halfway between neighbours, so both of these would be even
  have even := h.tie (.inl (by linarith))
  have even' := h'.tie (.inr (by linarith))
  have next : (m : ℚ) = n + 1 := by linarith
  have next : m = n + 1 := by exact_mod_cast next
  omega

/-! ### Exponents -/

theorem two_zpow_pos (t : ℤ) : (0 : ℚ) < 2 ^ t := zpow_pos (by norm_num) t

theorem two_zpow_add (t : ℤ) (k : ℕ) : (2 : ℚ) ^ (t + k) = 2 ^ k * 2 ^ t := by
  rw [zpow_add₀ (by norm_num), zpow_natCast, mul_comm]

theorem two_zpow_le {t u : ℤ} (h : t ≤ u) : (2 : ℚ) ^ t ≤ 2 ^ u :=
  zpow_le_zpow_right₀ (by norm_num) h

/-- The exponent of the numbers of the size of `q`: they have 53 bits, or the least exponent. -/
structure Fits (q : ℚ) (t : ℤ) : Prop where
  least : -1074 ≤ t
  low : t = -1074 ∨ 2 ^ 52 * 2 ^ t ≤ q
  high : q < 2 ^ 53 * 2 ^ t

/-- A larger fraction has no smaller exponent, and at a larger one it is past all numbers of the
smaller one. -/
theorem Fits.step {q q' : ℚ} {t t' : ℤ} (h : Fits q t) (h' : Fits q' t') (le : q ≤ q') :
    t = t' ∨ 2 ^ 53 * 2 ^ t ≤ (2 ^ 52 * 2 ^ t' : ℚ) ∧ 2 ^ 52 * 2 ^ t' ≤ q' := by
  rcases lt_trichotomy t t' with less | same | more
  · right
    have low := h'.low.resolve_left (by have := h.least; omega)
    have power : (2 : ℚ) ^ (t + (1 : ℕ)) ≤ 2 ^ t' := two_zpow_le (by omega)
    rw [two_zpow_add] at power
    exact ⟨by linarith, low⟩
  · exact .inl same
  · exfalso
    have low := h.low.resolve_left (by have := h'.least; omega)
    have high := h'.high
    have power : (2 : ℚ) ^ (t' + (1 : ℕ)) ≤ 2 ^ t := two_zpow_le (by omega)
    rw [two_zpow_add] at power
    linarith

/-! ### Rounding -/

/-- `m * 2 ^ t` is the number nearest to `q`.  A significand that is carried up to `2 ^ 53` stands for
the first number of the next exponent. -/
structure Rounds (q : ℚ) (m : ℕ) (t : ℤ) : Prop extends Fits q t where
  rounded : Rounded (q / 2 ^ t) m

/-- All 53 bits of the significand are in use, unless the exponent is the least one. -/
structure Canonical (m : ℕ) (t : ℤ) : Prop where
  width : m < 2 ^ 53
  least : -1074 ≤ t
  full : t = -1074 ∨ 2 ^ 52 ≤ m

variable {q q' : ℚ} {m m' : ℕ} {t t' : ℤ}

/-- The significands of an exponent reach up to the next one. -/
theorem Rounds.le_width (h : Rounds q m t) : m ≤ 2 ^ 53 := by
  refine h.rounded.mono (rounded_self (2 ^ 53)) ?_
  rw [div_le_iff₀ (two_zpow_pos t)]
  exact_mod_cast h.high.le

theorem Rounds.full (h : Rounds q m t) (low : 2 ^ 52 * 2 ^ t ≤ q) : 2 ^ 52 ≤ m := by
  refine (rounded_self (2 ^ 52)).mono h.rounded ?_
  rw [le_div_iff₀ (two_zpow_pos t)]
  exact_mod_cast low

/-- A number is nearest to itself. -/
theorem Canonical.rounds (h : Canonical m t) : Rounds (m * 2 ^ t) m t where
  least := h.least
  low := h.full.imp_right fun full => by
    have full : (2 : ℚ) ^ 52 ≤ m := by exact_mod_cast full
    exact mul_le_mul_of_nonneg_right full (two_zpow_pos t).le
  high := by
    have width : (m : ℚ) < 2 ^ 53 := by exact_mod_cast h.width
    exact mul_lt_mul_of_pos_right width (two_zpow_pos t)
  rounded := by
    rw [mul_div_cancel_right₀ _ (two_zpow_pos t).ne']
    exact rounded_self m

/-- The number `v` is nearest to `q`. -/
def IsNearest (q v : ℚ) : Prop := ∃ m t, Rounds q m t ∧ v = m * 2 ^ t

variable {v v' : ℚ}

theorem Canonical.isNearest (h : Canonical m t) : IsNearest (m * 2 ^ t) (m * 2 ^ t) :=
  ⟨m, t, h.rounds, rfl⟩

/-- The nearest number of a larger fraction is no smaller one. -/
theorem IsNearest.mono (h : IsNearest q v) (h' : IsNearest q' v') (le : q ≤ q') : v ≤ v' := by
  obtain ⟨m, t, h, rfl⟩ := h
  obtain ⟨m', t', h', rfl⟩ := h'
  rcases h.toFits.step h'.toFits le with rfl | ⟨apart, low⟩
  · have order : (m : ℚ) ≤ m' := by
      exact_mod_cast h.rounded.mono h'.rounded (div_le_div_of_nonneg_right le (two_zpow_pos t).le)
    exact mul_le_mul_of_nonneg_right order (two_zpow_pos t).le
  · have below : (m : ℚ) ≤ 2 ^ 53 := by exact_mod_cast h.le_width
    have above : (2 : ℚ) ^ 52 ≤ m' := by exact_mod_cast h'.full low
    calc (m * 2 ^ t : ℚ) ≤ 2 ^ 53 * 2 ^ t := mul_le_mul_of_nonneg_right below (two_zpow_pos t).le
      _ ≤ 2 ^ 52 * 2 ^ t' := apart
      _ ≤ m' * 2 ^ t' := mul_le_mul_of_nonneg_right above (two_zpow_pos t').le

/-- A fraction has one nearest number. -/
theorem IsNearest.unique (h : IsNearest q v) (h' : IsNearest q v') : v = v' :=
  le_antisymm (h.mono h' le_rfl) (h'.mono h le_rfl)

/-- Rounding moves a fraction by one part in `2 ^ 53`, or by half of the least number. -/
theorem IsNearest.error (h : IsNearest q v) (pos : 0 ≤ q) :
    |v - q| ≤ q / 2 ^ 53 + 2 ^ (-1075 : ℤ) := by
  obtain ⟨m, t, h, rfl⟩ := h
  have unit := two_zpow_pos t
  have low : ((m : ℚ) - 1 / 2) * 2 ^ t ≤ q := (le_div_iff₀ unit).mp h.rounded.low
  have high : q ≤ ((m : ℚ) + 1 / 2) * 2 ^ t := (div_le_iff₀ unit).mp h.rounded.high
  have half : (2 : ℚ) ^ t / 2 ≤ q / 2 ^ 53 + 2 ^ (-1075 : ℤ) := by
    rcases h.toFits.low with rfl | low
    · have share : 0 ≤ q / 2 ^ 53 := by positivity
      rw [show (-1074 : ℤ) = -1075 + (1 : ℕ) by rfl, two_zpow_add]
      linarith
    · have share : (2 : ℚ) ^ t / 2 ≤ q / 2 ^ 53 := by
        rw [div_le_div_iff₀ (by norm_num) (by norm_num)]
        linarith
      have := two_zpow_pos (-1075)
      linarith
  rw [abs_le]
  constructor
  · linarith
  · linarith

/-- Numbers of the same size are the same number. -/
theorem Canonical.unique (h : Canonical m t) (h' : Canonical m' t')
    (same : (m * 2 ^ t : ℚ) = m' * 2 ^ t') : m = m' ∧ t = t' := by
  have exponent : t = t' := by
    rcases h.rounds.toFits.step h'.rounds.toFits same.le with same | ⟨apart, low⟩
    · exact same
    · have high := h.rounds.high
      linarith
  subst exponent
  have significand := mul_right_cancel₀ (two_zpow_pos t).ne' same
  exact ⟨by exact_mod_cast significand, rfl⟩

end NeighborGraph.Nearest
