import Mathlib.Data.Int.Order.Basic
import Mathlib.Data.Prod.Lex
import Mathlib.Order.Compare

/-!
# Numbers on a line

Comparing floating-point numbers is not an order, because NaN compares with nothing.  The other
numbers lie on a line: `NumberLine.place` is the place of a number, which is the same for both zeros,
and comparing two numbers is comparing their places (`compares_place`).  So everything that holds in
a linear order can be used for comparisons of numbers that are not NaN.
-/

namespace NeighborGraph.NumberLine

open Float.Model

/-- The place of a number in its parts: first whether it is infinite, negative, zero or positive,
then the exponent, then the significand. -/
def placeOfParts : UnpackedFloat → ℤ ×ₗ ℤ ×ₗ ℤ
  | .infinity .negative => toLex (-2, toLex (0, 0))
  | .finite .negative significand exponent _ => toLex (-1, toLex (-exponent, -significand))
  | .notANumber => toLex (0, toLex (0, 0))
  | .zero _ => toLex (0, toLex (0, 0))
  | .finite .positive significand exponent _ => toLex (1, toLex (exponent, significand))
  | .infinity .positive => toLex (2, toLex (0, 0))

/-- The place of a number. -/
def place (x : Float) : ℤ ×ₗ ℤ ×ₗ ℤ := placeOfParts x.toModel.unpack

/-- Significands count only where the exponents are equal. -/
theorem compares_parts (e e' : ℤ) (m m' : Nat) :
    ((compare e e').then (compare m m')).Compares (toLex (e, (m : ℤ))) (toLex (e', (m' : ℤ))) := by
  rcases lt_trichotomy e e' with h | rfl | h
  · rw [compare_lt_iff_lt.mpr h]
    exact Prod.Lex.toLex_lt_toLex.mpr (.inl h)
  · rw [compare_eq_iff_eq.mpr rfl]
    rcases lt_trichotomy m m' with h | rfl | h
    · rw [compare_lt_iff_lt.mpr h]
      exact Prod.Lex.toLex_lt_toLex.mpr (.inr ⟨rfl, Int.ofNat_lt.mpr h⟩)
    · rw [compare_eq_iff_eq.mpr rfl]
      exact rfl
    · rw [compare_gt_iff_gt.mpr h]
      exact Prod.Lex.toLex_lt_toLex.mpr (.inr ⟨rfl, Int.ofNat_lt.mpr h⟩)
  · rw [compare_gt_iff_gt.mpr h]
    exact Prod.Lex.toLex_lt_toLex.mpr (.inl h)

/-- Of negative numbers the one with the larger parts is the smaller one. -/
theorem swap_compares_parts (e e' : ℤ) (m m' : Nat) :
    ((compare e e').then (compare m m')).swap.Compares
      (toLex (-e, -(m : ℤ))) (toLex (-e', -(m' : ℤ))) := by
  have parts := compares_parts e e' m m'
  have mirrored {a b : ℤ} {k l : ℤ} (h : toLex (a, k) < toLex (b, l)) :
      toLex (-b, -l) < toLex (-a, -k) := by
    rw [Prod.Lex.toLex_lt_toLex] at h ⊢
    show -b < -a ∨ -b = -a ∧ -l < -k
    change a < b ∨ a = b ∧ k < l at h
    omega
  cases order : (compare e e').then (compare m m') with
  | lt => exact mirrored (parts.eq_lt.mp order)
  | eq =>
    have same := parts.eq_eq.mp order
    have first : e = e' := congrArg (fun p => (ofLex p).1) same
    have second : (m : ℤ) = m' := congrArg (fun p => (ofLex p).2) same
    rw [first, second]
    exact rfl
  | gt => exact mirrored (parts.eq_gt.mp order)

/-- What stands in front counts first. -/
theorem front_lt {k k' : ℤ} (h : k < k') (p q : ℤ ×ₗ ℤ) : toLex (k, p) < toLex (k', q) :=
  Prod.Lex.toLex_lt_toLex.mpr (.inl h)

theorem compares_behind {o : Ordering} (k : ℤ) {p q : ℤ ×ₗ ℤ} (h : o.Compares p q) :
    o.Compares (toLex (k, p)) (toLex (k, q)) := by
  cases o with
  | lt => exact Prod.Lex.toLex_lt_toLex.mpr (.inr ⟨rfl, h⟩)
  | eq => exact congrArg (fun r => toLex (k, r)) h
  | gt => exact Prod.Lex.toLex_lt_toLex.mpr (.inr ⟨rfl, h⟩)

/-- Comparing parts that are numbers is comparing their places. -/
theorem compares_placeOfParts {x y : UnpackedFloat} (hx : x ≠ .notANumber) (hy : y ≠ .notANumber) :
    ∃ o, x.compare y = some o ∧ o.Compares (placeOfParts x) (placeOfParts y) := by
  cases x with
  | notANumber => exact absurd rfl hx
  | infinity s =>
    cases y with
    | notANumber => exact absurd rfl hy
    | infinity t =>
      cases s <;> cases t
      · exact ⟨_, rfl, rfl⟩
      · exact ⟨_, rfl, front_lt (by decide) _ _⟩
      · exact ⟨_, rfl, front_lt (by decide) _ _⟩
      · exact ⟨_, rfl, rfl⟩
    | zero t => cases s <;> exact ⟨_, rfl, front_lt (by decide) _ _⟩
    | finite t => cases s <;> cases t <;> exact ⟨_, rfl, front_lt (by decide) _ _⟩
  | zero s =>
    cases y with
    | notANumber => exact absurd rfl hy
    | infinity t => cases t <;> exact ⟨_, rfl, front_lt (by decide) _ _⟩
    | zero t => exact ⟨_, rfl, rfl⟩
    | finite t => cases t <;> exact ⟨_, rfl, front_lt (by decide) _ _⟩
  | finite s m e =>
    cases y with
    | notANumber => exact absurd rfl hy
    | infinity t => cases s <;> cases t <;> exact ⟨_, rfl, front_lt (by decide) _ _⟩
    | zero t => cases s <;> exact ⟨_, rfl, front_lt (by decide) _ _⟩
    | finite t m' e' =>
      cases s <;> cases t
      · exact ⟨_, rfl, compares_behind (-1) (swap_compares_parts e e' m m')⟩
      · exact ⟨_, rfl, front_lt (by decide) _ _⟩
      · exact ⟨_, rfl, front_lt (by decide) _ _⟩
      · exact ⟨_, rfl, compares_behind 1 (compares_parts e e' m m')⟩

theorem parts_ne_of_not_isNaN {x : Float} (h : x.isNaN = false) :
    x.toModel.unpack ≠ .notANumber := by
  intro nan
  have h : x.toModel.unpack.isNaN = false := h
  rw [nan] at h
  exact Bool.noConfusion h

/-! ### Numbers -/

variable {x y : Float}

theorem compares_place (hx : x.isNaN = false) (hy : y.isNaN = false) :
    ∃ o, x.toModel.unpack.compare y.toModel.unpack = some o ∧ o.Compares (place x) (place y) :=
  compares_placeOfParts (parts_ne_of_not_isNaN hx) (parts_ne_of_not_isNaN hy)

/-- Of two numbers that are not NaN the one in front is the smaller one. -/
theorem lt_iff_place (hx : x.isNaN = false) (hy : y.isNaN = false) :
    x < y ↔ place x < place y := by
  obtain ⟨o, order, compares⟩ := compares_place hx hy
  have lt : x < y ↔ decide (x.toModel.unpack.lt y.toModel.unpack = true) = true := Iff.rfl
  rw [lt, decide_eq_true_iff, UnpackedFloat.lt, order, beq_iff_eq, Option.some_inj,
    compares.eq_lt]

theorem le_iff_place (hx : x.isNaN = false) (hy : y.isNaN = false) :
    x ≤ y ↔ place x ≤ place y := by
  obtain ⟨o, order, compares⟩ := compares_place hx hy
  have le : x ≤ y ↔ decide (x.toModel.unpack.le y.toModel.unpack = true) = true := Iff.rfl
  rw [le, decide_eq_true_iff, UnpackedFloat.le, order, Option.any_some, Ordering.isLE_iff_ne_gt]
  exact compares.ne_gt

theorem beq_iff_place (hx : x.isNaN = false) (hy : y.isNaN = false) :
    (x == y) = true ↔ place x = place y := by
  obtain ⟨o, order, compares⟩ := compares_place hx hy
  have beq : (x == y) = (x.toModel.unpack.compare y.toModel.unpack == some .eq) := rfl
  rw [beq, order, beq_iff_eq, Option.some_inj, compares.eq_eq]

/-- Nothing is less than NaN. -/
theorem isNaN_of_lt (h : x < y) : y.isNaN = false := by
  have h : x.toModel.unpack.lt y.toModel.unpack = true := of_decide_eq_true h
  show y.toModel.unpack.isNaN = false
  cases nan : y.toModel.unpack with
  | notANumber =>
    rw [nan, UnpackedFloat.lt] at h
    cases other : x.toModel.unpack with
    | infinity s =>
      rw [other] at h
      cases s <;> cases h
    | finite s =>
      rw [other] at h
      cases s <;> cases h
    | _ =>
      rw [other] at h
      cases h
  | _ => rfl

/-- NaN is not at most anything. -/
theorem isNaN_of_le (h : x ≤ y) : x.isNaN = false := by
  have h : x.toModel.unpack.le y.toModel.unpack = true := of_decide_eq_true h
  show x.toModel.unpack.isNaN = false
  cases nan : x.toModel.unpack with
  | notANumber =>
    rw [nan, UnpackedFloat.le] at h
    cases y.toModel.unpack <;> cases h
  | _ => rfl

/-- What is at most a number is at most every number that is not less. -/
theorem le_of_le_of_not_lt {z : Float} (hy : y.isNaN = false) (hz : z.isNaN = false) (h : x ≤ y)
    (h' : ¬z < y) : x ≤ z := by
  have hx := isNaN_of_le h
  rw [le_iff_place hx hy] at h
  rw [lt_iff_place hz hy, not_lt] at h'
  rw [le_iff_place hx hz]
  exact le_trans h h'

/-- Without NaN there is nothing but smaller numbers and others. -/
theorem le_iff_not_lt (hx : x.isNaN = false) (hy : y.isNaN = false) : x ≤ y ↔ ¬y < x := by
  rw [le_iff_place hx hy, lt_iff_place hy hx, not_lt]

theorem le_of_lt (h : x < y) : x ≤ y := by
  have h : x.toModel.unpack.lt y.toModel.unpack = true := of_decide_eq_true h
  refine decide_eq_true (?_ : x.toModel.unpack.le y.toModel.unpack = true)
  rw [UnpackedFloat.lt, beq_iff_eq] at h
  rw [UnpackedFloat.le, h]
  rfl

/-- Whatever they are, two numbers of which one is at most the other and not equal to it are in order. -/
theorem lt_of_le_of_not_beq (h : x ≤ y) (different : ¬(x == y) = true) : x < y := by
  have h : x.toModel.unpack.le y.toModel.unpack = true := of_decide_eq_true h
  have different : ¬(x.toModel.unpack.compare y.toModel.unpack == some .eq) = true := different
  refine decide_eq_true (?_ : x.toModel.unpack.lt y.toModel.unpack = true)
  rw [UnpackedFloat.le] at h
  rw [UnpackedFloat.lt]
  cases order : x.toModel.unpack.compare y.toModel.unpack with
  | none =>
    rw [order] at h
    cases h
  | some o =>
    rw [order] at h different
    cases o with
    | lt => rfl
    | eq => exact absurd rfl different
    | gt => cases h

end NeighborGraph.NumberLine
