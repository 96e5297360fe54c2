import NeighborGraph.Json.Writer
import NeighborGraph.Proofs.Decimal.Shortest
import NeighborGraph.Proofs.Json.Numbers
import NeighborGraph.Proofs.Json.Scaling

/-!
# Numbers between zero and one read back

The decimal of a number below one is written with zeros in front of its digits or with a negative
exponent, and either way it is read as its digits and the decimal place of the last of them
(`number_set`).  Scaling the digits gives a number near the one that was written, and the same one
if its decimal is short (`exists_reread`).
-/

namespace NeighborGraph.Json

open Decimal Nearest

/-! ### Layouts -/

section Layout

variable {w k : ℕ} {layout : Layout} {rest : List Char}

/-- A decimal below one has no more digits than places. -/
theorem length_digitsOf_le (deep : 0 < k) (small : w < 10 ^ k) :
    (Layout.digitsOf w).length ≤ k :=
  (Nat.length_toDigits_le_iff (by decide) deep).mpr small

/-- Zeros in front of the digits. -/
theorem setPositional_small (deep : 0 < k) (small : w < 10 ^ k) :
    layout.setPositional ⟨w, -k⟩ =
      '0' :: '.' :: (Layout.zeros (k - (Layout.digitsOf w).length) ++ Layout.digitsOf w) := by
  have fewer := length_digitsOf_le deep small
  have below : ¬0 ≤ -(k : ℤ) := by omega
  have places : (-(-(k : ℤ))).toNat = k := by omega
  have padding : k + 1 - (Layout.digitsOf w).length = k - (Layout.digitsOf w).length + 1 := by omega
  simp only [Layout.setPositional, if_neg below, places]
  rw [padding]
  have front : (Layout.zeros (k - (Layout.digitsOf w).length + 1) ++ Layout.digitsOf w).length - k
      = 1 := by
    simp only [Layout.zeros, List.length_append, List.length_replicate]
    omega
  rw [front, Layout.zeros, List.replicate_succ]
  rfl

/-- A leading digit and a negative exponent. -/
theorem setExponent_small {c : Char} {ds : List Char} (deep : 0 < k) (small : w < 10 ^ k)
    (digits : Layout.digitsOf w = c :: ds) : Layout.setExponent ⟨w, -k⟩ =
      c :: (if ds = [] then [] else '.' :: ds) ++ 'e' :: '-' :: Layout.digitsOf (k - ds.length) := by
  have fewer := length_digitsOf_le deep small
  rw [digits, List.length_cons] at fewer
  have below : -(k : ℤ) + ((ds.length + 1 : ℕ) : ℤ) - 1 < 0 := by omega
  have size : (-(k : ℤ) + ((ds.length + 1 : ℕ) : ℤ) - 1).natAbs = k - ds.length := by omega
  simp only [Layout.setExponent, digits, List.length_cons, if_pos below, size]
  by_cases single : ds = []
  · simp [single]
  · simp [single]

/-- Zeros before the digits do not count. -/
theorem number_setPositional (word : w ≤ largestWord) (deep : 0 < k)
    (small : w < 10 ^ k) (ended : Ended rest) :
    number (layout.setPositional ⟨w, -k⟩ ++ rest) = scale false w (-k) rest := by
  have fewer := length_digitsOf_le deep small
  have value : Nat.ofDigitChars 10
      (Layout.zeros (k - (Layout.digitsOf w).length) ++ Layout.digitsOf w) 0 = w := by
    rw [Nat.ofDigitChars_append, Layout.zeros, Nat.ofDigitChars_replicate_zero, Nat.mul_zero]
    exact Nat.ofDigitChars_ten_toDigits
  have length :
      (Layout.zeros (k - (Layout.digitsOf w).length) ++ Layout.digitsOf w).length = k := by
    simp only [Layout.zeros, List.length_append, List.length_replicate]
    omega
  have digits : ∀ c ∈ Layout.zeros (k - (Layout.digitsOf w).length) ++ Layout.digitsOf w,
      c.isDigit = true := by
    intro c mem
    rcases List.mem_append.mp mem with mem | mem
    · rw [List.eq_of_mem_replicate mem]
      decide
    · exact isDigit_toDigits c mem
  have nonempty : Layout.zeros (k - (Layout.digitsOf w).length) ++ Layout.digitsOf w ≠ [] :=
    List.length_pos_iff.mp (by omega)
  rw [setPositional_small deep small, List.cons_append, List.cons_append, number_digit (by decide),
    magnitude_point digits nonempty ended (by rwa [value]), value, length]

theorem number_setExponent (some : 0 < w) (word : w ≤ largestWord) (deep : 0 < k)
    (small : w < 10 ^ k) (near : k ≤ largestExponent) (ended : Ended rest) :
    number (Layout.setExponent ⟨w, -k⟩ ++ rest) = scale false w (-k) rest := by
  obtain ⟨c, ds, front⟩ := List.exists_cons_of_ne_nil (Nat.toDigits_ne_nil (n := w) (b := 10))
  have front : Layout.digitsOf w = c :: ds := front
  have value : Nat.ofDigitChars 10 (Layout.digitsOf w) 0 = w := Nat.ofDigitChars_ten_toDigits
  have digits : ∀ c ∈ Layout.digitsOf w, c.isDigit = true := isDigit_toDigits
  have fewer := length_digitsOf_le deep small
  rw [front] at value digits fewer
  rw [List.length_cons] at fewer
  have first : c.isDigit = true := digits c List.mem_cons_self
  have others : ∀ c ∈ ds, c.isDigit = true := fun c mem => digits c (List.mem_cons_of_mem _ mem)
  have exponent : Nat.ofDigitChars 10 (Layout.digitsOf (k - ds.length)) 0 = k - ds.length :=
    Nat.ofDigitChars_ten_toDigits
  have exponents : ∀ c ∈ Layout.digitsOf (k - ds.length), c.isDigit = true := isDigit_toDigits
  have nonempty : Layout.digitsOf (k - ds.length) ≠ [] := Nat.toDigits_ne_nil
  have place : (-ds.length - (k - ds.length : ℕ) : ℤ) = -k := by omega
  rw [setExponent_small deep small front, List.cons_append, List.cons_append, number_digit first,
    ← List.cons_append, ← List.cons_append,
    magnitude_exponent first (head_toDigits some front) others exponents nonempty ended
      (by rwa [value]) (by rw [exponent]; omega),
    value, exponent, place]

/-- The digits of a decimal below one are read with the place of the last of them. -/
theorem number_set (some : 0 < w) (word : w ≤ largestWord) (deep : 0 < k) (small : w < 10 ^ k)
    (near : k ≤ largestExponent) (ended : Ended rest) :
    number (Writer.numberLayout.set ⟨w, -k⟩ ++ rest) = scale false w (-k) rest := by
  have positional : number (Writer.numberLayout.setPositional ⟨w, -k⟩ ++ rest) = _ :=
    number_setPositional word deep small ended
  have scientific := number_setExponent some word deep small near ended
  simp only [Layout.set, Writer.numberLayout] at positional ⊢
  split
  · exact positional
  · exact scientific

end Layout

/-! ### Rereading -/

/-- The decimal that is written for a number is exact when it is read: its digits fit a significand, and
its power of ten is a number. -/
def short (x : Float) : Bool :=
  match Binary.ofBits? x.toBits with
  | none => false
  | some b => b.significand == 0 ||
    (decide ((shortest .even b).digits < 2 ^ 53) && decide (-22 ≤ (shortest .even b).exponent))

/-- What a number between zero and one is read back as: another such number that is off by less than
one part in `2 ^ 48`, or by two of the least numbers, and the same number if its decimal is short. -/
structure Reread (x y : Float) : Prop where
  unit : 0.0 ≤ y ∧ y ≤ 1.0
  pos : 0.0 < x → 0.0 < y
  near : ∀ v, Stands x v → ∃ w, Stands y w ∧ |w - v| ≤ v / 2 ^ 48 + 2 ^ (-1073 : ℤ)
  same : short x = true → y = x

variable {x : Float} {b : Binary}

/-- The digits that are written for a number. -/
def decimal (tie : TieRule) (b : Binary) : Digits :=
  if b.significand = 0 then ⟨0, 0⟩ else shortest tie b

theorem characters_positive {layout : Layout} (fields : Fields x b) (sign : signOf x = .positive) :
    layout.characters x = layout.set (decimal layout.tie b) := by
  have top : x.toBits >>> 63 = 0 := by
    by_contra top
    rw [signOf, if_neg top] at sign
    cases sign
  simp only [Layout.characters, fields.bits, top]
  rfl

theorem characters_negative {layout : Layout} (fields : Fields x b) (sign : signOf x = .negative) :
    layout.characters x = '-' :: layout.set (decimal layout.tie b) := by
  have top : x.toBits >>> 63 ≠ 0 := by
    intro top
    rw [signOf, if_pos top] at sign
    cases sign
  simp only [Layout.characters, fields.bits, bne_iff_ne.mpr top]
  rfl

theorem reread_self (low : 0.0 ≤ x) (high : x ≤ 1.0) : Reread x x where
  unit := ⟨low, high⟩
  pos h := h
  near v stands := by
    refine ⟨v, stands, ?_⟩
    rw [sub_self, abs_zero]
    have := stands.nonneg
    have := two_zpow_pos (-1073)
    positivity
  same _ := rfl

theorem short_iff (fields : Fields x b) : short x = true ↔ b.significand = 0 ∨
    (shortest .even b).digits < 2 ^ 53 ∧ -22 ≤ (shortest .even b).exponent := by
  rw [short, fields.bits]
  simp

/-- Scaling the shortest decimal of a number gives a number near it. -/
theorem exists_scaled_shortest (fields : Fields x b) (stands : Stands x b.value)
    (proper : b.Proper) (below : b.value < 1) : ∃ y, ∃ k : ℕ, (shortest .even b).exponent = -k ∧
      0 < k ∧ k ≤ 360 ∧ 0 < (shortest .even b).digits ∧ (shortest .even b).digits < 10 ^ k ∧
      scaleFrom k (Float.ofNat (shortest .even b).digits) (-k) = some y ∧ Reread x y := by
  obtain ⟨k, exponent, deep, places, some, small⟩ := shortest_of_unit proper below .even
  have word := (shortest_bounds proper .even).2.1
  have least := le_shortest proper
  have nearest := isNearest_shortest proper .even
  have shortness := short_iff fields
  have value : (shortest .even b).value = (shortest .even b).digits / 10 ^ k := by
    rw [Digits.value, exponent, zpow_neg, zpow_natCast, div_eq_mul_inv]
  rw [value] at least nearest
  generalize shortest .even b = d at *
  obtain ⟨y, w, scaled, result, unit, error⟩ := exists_scaled some
    (word.trans (Nat.pow_le_pow_right (by norm_num) (by decide))) small.le deep
    (places.trans (by decide))
  refine ⟨y, k, exponent, deep, places, some, small, scaled, ?_⟩
  have rounded := nearest.error (by positivity)
  have tiny := two_zpow_pos (-1075)
  constructor
  · exact ⟨(stands_zero.le_iff result).mpr result.nonneg, (result.le_iff stands_one).mpr unit⟩
  · intro _
    rw [stands_zero.lt_iff result]
    rw [abs_le] at error
    linarith
  · intro v same
    refine ⟨w, result, ?_⟩
    rw [same.unique stands]
    rw [show (-1073 : ℤ) = -1075 + (2 : ℕ) by rfl, two_zpow_add]
    rw [abs_le] at error rounded ⊢
    generalize (d.digits / 10 ^ k : ℚ) = r at *
    constructor <;> linarith
  · intro exact
    have digits := (shortness.mp exact).resolve_left proper.some
    have exact := scaled_exact digits.1 deep (by omega) scaled result
    rw [nearest.unique exact] at stands
    exact result.inj stands

/-- Zero is read back with its sign. -/
theorem magnitude_zero_text (negative : Bool) {rest : List Char} (ended : Ended rest) :
    magnitude negative (Writer.numberLayout.set ⟨0, 0⟩ ++ rest) =
      .ok (.float (if negative then -0.0 else 0.0), rest) := by
  have text : Writer.numberLayout.set ⟨0, 0⟩ = ['0', '.', '0'] := by decide
  have digits : ∀ c ∈ ['0'], c.isDigit = true := by simp
  rw [text]
  exact (magnitude_point digits (by simp) ended (by decide +kernel)).trans rfl

/-- A number that is written as zero is a zero. -/
theorem number_zero {rest : List Char} (fields : Fields x b) (zero : b.significand = 0)
    (ended : Ended rest) : number (Writer.numberLayout.characters x ++ rest) = .ok (.float x, rest) := by
  have digits : decimal .even b = ⟨0, 0⟩ := if_pos zero
  cases side : signOf x with
  | positive =>
    have same : x = 0.0 := by
      have stands := fields.stands side
      rw [zero, Nat.cast_zero, zero_mul] at stands
      exact stands.inj stands_zero
    have text : Writer.numberLayout.characters x = Writer.numberLayout.set ⟨0, 0⟩ :=
      (characters_positive fields side).trans (congrArg _ digits)
    rw [text, same]
    exact magnitude_zero_text false ended
  | negative =>
    have same : x = -0.0 := eq_of_unpack <| by
      rw [fields.unpack, side, zero]
      rfl
    have text : Writer.numberLayout.characters x = '-' :: Writer.numberLayout.set ⟨0, 0⟩ :=
      (characters_negative fields side).trans (congrArg _ (congrArg _ digits))
    rw [text, same]
    exact magnitude_zero_text true ended

/-- One is read back. -/
theorem number_one {rest : List Char} (ended : Ended rest) :
    number (Writer.numberLayout.characters 1.0 ++ rest) = .ok (.float 1.0, rest) := by
  have text : Writer.numberLayout.characters 1.0 = ['1', '.', '0'] := by decide +kernel
  have stop : ∀ c, rest.head? = some c → digit? c = none := fun c next => (ended c next).1
  have digits : ∀ c ∈ ([] : List Char), c.isDigit = true := by simp
  rw [text, List.cons_append, number_digit (by decide)]
  refine (magnitude_digits (by decide) (by decide) digits ?_ (by decide +kernel)).trans ?_
  · simp [show digit? '.' = none by decide]
  · show fraction false 1 0 (['0'] ++ rest) = _
    rw [fraction_append (by simp) (by simp) stop (by decide +kernel), maybeExponent_ended ended]
    rfl

/-- A number between zero and one is read back as a number near it. -/
theorem exists_reread (low : 0.0 ≤ x) (high : x ≤ 1.0) : ∃ y, Reread x y ∧
    ∀ rest, Ended rest → number (Writer.numberLayout.characters x ++ rest) = .ok (.float y, rest) := by
  obtain ⟨b, fields, sign⟩ := fields_of_unit low high
  by_cases zero : b.significand = 0
  · exact ⟨x, reread_self low high, fun rest ended => number_zero fields zero ended⟩
  · have positive : signOf x = .positive := by
      cases side : signOf x with
      | positive => rfl
      | negative => exact absurd (sign side) zero
    have stands : Stands x b.value := fields.stands positive
    have proper : b.Proper := ⟨fields.canonical, zero, fields.lowest⟩
    have unit : b.value ≤ 1 := (stands.le_iff stands_one).mp high
    rcases unit.lt_or_eq with below | one
    · obtain ⟨y, k, exponent, deep, places, some, small, scaled, reread⟩ :=
        exists_scaled_shortest fields stands proper below
      refine ⟨y, reread, fun rest ended => ?_⟩
      have text : Writer.numberLayout.characters x =
          Writer.numberLayout.set ⟨(shortest .even b).digits, -k⟩ := by
        refine (characters_positive fields positive).trans (congrArg _ ?_)
        rw [← exponent]
        exact if_neg zero
      have word := (shortest_bounds proper .even).2.1
      have size : (-(k : ℤ)).natAbs = k := by omega
      rw [text, number_set some (word.trans (by decide +kernel)) deep small
        (places.trans (by decide +kernel)) ended, scale, size, scaled]
      rfl
    · have same : x = 1.0 := stands.inj (one.symm ▸ stands_one)
      rw [same]
      exact ⟨1.0, reread_self (same ▸ low) (same ▸ high), fun rest ended => number_one ended⟩

end NeighborGraph.Json
