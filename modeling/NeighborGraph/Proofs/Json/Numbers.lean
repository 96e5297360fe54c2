import NeighborGraph.Proofs.Json.Strings

/-!
# Numbers read back

The digits of a word are read as the word (`number_word`).  A decimal below one is written with zeros in
front of its digits or with a negative exponent; either way it is read as its digits and the decimal
place of the last of them (`magnitude_point`, `magnitude_exponent`).  A number ends where no digit,
point or exponent follows (`Ended`).
-/

namespace NeighborGraph.Json

/-- What a number is followed by does not belong to it. -/
def Ended (rest : List Char) : Prop :=
  ∀ c, rest.head? = some c → digit? c = none ∧ c ≠ '.' ∧ c ≠ 'e' ∧ c ≠ 'E'

variable {ds rest : List Char} {c : Char} {negative : Bool} {d e value count : ℕ}

/-! ### Digits -/

theorem digit?_of_isDigit (h : c.isDigit = true) : digit? c = some (c.toNat - '0'.toNat) := by
  have bounds : '0' ≤ c ∧ c ≤ '9' := by
    simpa [Char.isDigit, Char.le_def] using h
  exact if_pos bounds

theorem isDigit_of_digit? (h : digit? c = none) : isDigit c = false := by
  rw [isDigit, h]
  rfl

/-- More digits make no smaller number. -/
theorem le_ofDigitChars (ds : List Char) (value : ℕ) : value ≤ Nat.ofDigitChars 10 ds value := by
  induction ds generalizing value with
  | nil => simp
  | cons c ds ih =>
    rw [Nat.ofDigitChars_cons]
    exact le_trans (by omega) (ih _)

/-- Digits are gathered up to the first other character. -/
theorem gather_append (digits : ∀ c ∈ ds, c.isDigit = true)
    (ended : ∀ c, rest.head? = some c → digit? c = none)
    (fits : Nat.ofDigitChars 10 ds value ≤ largestWord) :
    gather value count (ds ++ rest) = ⟨Nat.ofDigitChars 10 ds value, count + ds.length, rest⟩ := by
  induction ds generalizing value count with
  | nil =>
    cases rest with
    | nil => simp [gather]
    | cons c rest => simp [gather, ended c rfl]
  | cons c ds ih =>
    rw [Nat.ofDigitChars_cons] at fits ⊢
    have digit := digit?_of_isDigit (digits c List.mem_cons_self)
    have room : value * 10 + (c.toNat - '0'.toNat) ≤ largestWord := by
      have := le_ofDigitChars ds (10 * value + (c.toNat - '0'.toNat))
      omega
    rw [List.cons_append, gather]
    simp only [digit, if_pos room]
    rw [Nat.mul_comm value 10, ih (fun c mem => digits c (List.mem_cons_of_mem _ mem)) fits,
      List.length_cons]
    congr 1
    omega

theorem exponentFrom_append (digits : ∀ c ∈ ds, c.isDigit = true)
    (ended : ∀ c, rest.head? = some c → digit? c = none)
    (fits : Nat.ofDigitChars 10 ds value ≤ largestExponent) :
    exponentFrom value (ds ++ rest) = (some (Nat.ofDigitChars 10 ds value), rest) := by
  induction ds generalizing value with
  | nil =>
    cases rest with
    | nil => simp [exponentFrom]
    | cons c rest => simp [exponentFrom, ended c rfl]
  | cons c ds ih =>
    rw [Nat.ofDigitChars_cons] at fits ⊢
    have digit := digit?_of_isDigit (digits c List.mem_cons_self)
    have room : value * 10 + (c.toNat - '0'.toNat) ≤ largestExponent := by
      have := le_ofDigitChars ds (10 * value + (c.toNat - '0'.toNat))
      omega
    rw [List.cons_append, exponentFrom]
    simp only [digit, if_pos room]
    rw [Nat.mul_comm value 10, ih (fun c mem => digits c (List.mem_cons_of_mem _ mem)) fits]

/-! ### Decimals -/

theorem maybeExponent_ended (ended : Ended rest) (places : ℤ) :
    maybeExponent negative value places rest = scale negative value places rest := by
  have none : opensExponent rest.head? = false := by
    cases rest with
    | nil => rfl
    | cons c rest =>
      obtain ⟨-, -, small, large⟩ := ended c rfl
      simp [opensExponent, small, large]
  rw [maybeExponent, bind_ok (show ahead rest = .ok (rest.head?, rest) from rfl), none]
  rfl

/-- A negative exponent. -/
theorem exponent_append (digits : ∀ c ∈ ds, c.isDigit = true) (nonempty : ds ≠ [])
    (ended : ∀ c, rest.head? = some c → digit? c = none)
    (fits : Nat.ofDigitChars 10 ds 0 ≤ largestExponent) (places : ℤ) :
    exponent negative value places ('-' :: (ds ++ rest)) =
      scale negative value (places - Nat.ofDigitChars 10 ds 0) rest := by
  obtain ⟨c, ds, rfl⟩ := List.exists_cons_of_ne_nil nonempty
  have sign : exponentSign ('-' :: (c :: ds ++ rest)) = .ok (true, c :: ds ++ rest) := rfl
  have first := digit?_of_isDigit (digits c List.mem_cons_self)
  rw [Nat.ofDigitChars_cons, Nat.mul_zero, Nat.zero_add] at fits ⊢
  rw [exponent, bind_ok sign, List.cons_append, bind_ok next_cons]
  simp only [first, exponentFrom_append (fun c mem => digits c (List.mem_cons_of_mem _ mem)) ended fits]
  rfl

/-- Characters that are no digits stay. -/
theorem dropWhile_ended (ended : ∀ c, rest.head? = some c → digit? c = none) :
    rest.dropWhile isDigit = rest := by
  cases rest with
  | nil => rfl
  | cons c rest => exact List.dropWhile_cons_of_neg (by simp [isDigit_of_digit? (ended c rfl)])

/-- Digits after the point. -/
theorem fraction_append (digits : ∀ c ∈ ds, c.isDigit = true) (nonempty : ds ≠ [])
    (ended : ∀ c, rest.head? = some c → digit? c = none)
    (fits : Nat.ofDigitChars 10 ds value ≤ largestWord) (places : ℤ) :
    fraction negative value places (ds ++ rest) =
      maybeExponent negative (Nat.ofDigitChars 10 ds value) (places - ds.length) rest := by
  have length := List.length_pos_iff.mpr nonempty
  rw [fraction, gather_append digits ended fits]
  simp only [Nat.zero_add]
  rw [if_neg (by omega), dropWhile_ended ended]

/-! ### Numbers -/

/-- Zeros in front of the digits. -/
theorem magnitude_point (digits : ∀ c ∈ ds, c.isDigit = true) (nonempty : ds ≠ [])
    (ended : Ended rest) (fits : Nat.ofDigitChars 10 ds 0 ≤ largestWord) :
    magnitude negative ('0' :: '.' :: (ds ++ rest)) =
      scale negative (Nat.ofDigitChars 10 ds 0) (-ds.length) rest := by
  show fraction negative 0 0 (ds ++ rest) = _
  rw [fraction_append digits nonempty (fun c next => (ended c next).1) fits,
    maybeExponent_ended ended, Int.zero_sub]

/-- Digits that do not start with a zero. -/
theorem magnitude_digits (first : c.isDigit = true) (nonzero : c ≠ '0')
    (digits : ∀ c ∈ ds, c.isDigit = true) (ended : ∀ c, rest.head? = some c → digit? c = none)
    (fits : Nat.ofDigitChars 10 (c :: ds) 0 ≤ largestWord) :
    magnitude negative (c :: ds ++ rest) =
      afterInteger negative (Nat.ofDigitChars 10 (c :: ds) 0) 0 rest := by
  rw [Nat.ofDigitChars_cons, Nat.mul_zero, Nat.zero_add] at fits ⊢
  have digit := digit?_of_isDigit first
  have some : c.toNat - '0'.toNat ≠ 0 := by
    intro zero
    simp only [Char.isDigit, Bool.and_eq_true, decide_eq_true_eq] at first
    have low : '0'.toNat ≤ c.toNat := UInt32.le_iff_toNat_le.mp first.1
    exact nonzero (Char.toNat_inj.mp (by omega))
  have nothing : rest.takeWhile isDigit = [] := by
    cases rest with
    | nil => rfl
    | cons c rest => exact List.takeWhile_cons_of_neg (by simp [isDigit_of_digit? (ended c rfl)])
  obtain ⟨d, value⟩ : ∃ d, c.toNat - '0'.toNat = d + 1 := ⟨c.toNat - '0'.toNat - 1, by omega⟩
  rw [value] at digit fits ⊢
  have gathered : gather (d + 1) 1 (ds ++ rest) = _ := gather_append digits ended fits
  rw [magnitude, List.cons_append, bind_ok next_cons, digit]
  show afterInteger negative (gather (d + 1) 1 (ds ++ rest)).value
    ((gather (d + 1) 1 (ds ++ rest)).rest.takeWhile isDigit).length
    ((gather (d + 1) 1 (ds ++ rest)).rest.dropWhile isDigit) = _
  rw [gathered, nothing, dropWhile_ended ended]
  rfl

/-- A leading digit, the others and a negative exponent. -/
theorem magnitude_exponent {es : List Char} (first : c.isDigit = true) (nonzero : c ≠ '0')
    (digits : ∀ c ∈ ds, c.isDigit = true) (exponents : ∀ c ∈ es, c.isDigit = true)
    (nonempty : es ≠ []) (ended : Ended rest)
    (fits : Nat.ofDigitChars 10 (c :: ds) 0 ≤ largestWord)
    (fits' : Nat.ofDigitChars 10 es 0 ≤ largestExponent) :
    magnitude negative (c :: (if ds = [] then [] else '.' :: ds) ++ 'e' :: '-' :: es ++ rest) =
      scale negative (Nat.ofDigitChars 10 (c :: ds) 0)
        (-ds.length - Nat.ofDigitChars 10 es 0) rest := by
  have point : digit? '.' = none := by decide
  have letter : digit? 'e' = none := by decide
  have tail : 'e' :: '-' :: es ++ rest = 'e' :: '-' :: (es ++ rest) := rfl
  by_cases single : ds = []
  · subst single
    rw [if_pos rfl, List.append_assoc, tail,
      magnitude_digits first nonzero digits (by simp [letter]) fits]
    show exponent negative _ 0 ('-' :: (es ++ rest)) = _
    rw [exponent_append exponents nonempty (fun c next => (ended c next).1) fits']
    rfl
  · have leading : Nat.ofDigitChars 10 [c] 0 ≤ largestWord := by
      rw [Nat.ofDigitChars_cons] at fits ⊢
      exact (le_ofDigitChars ds _).trans fits
    have split : Nat.ofDigitChars 10 (c :: ds) 0 =
        Nat.ofDigitChars 10 ds (Nat.ofDigitChars 10 [c] 0) := by
      simp only [Nat.ofDigitChars_cons, Nat.ofDigitChars_nil]
    have parts : c :: ('.' :: ds) ++ 'e' :: '-' :: es ++ rest =
        [c] ++ '.' :: (ds ++ 'e' :: '-' :: (es ++ rest)) := by simp
    rw [split] at fits ⊢
    rw [if_neg single, parts,
      magnitude_digits first nonzero (by simp) (by simp [point]) leading]
    show fraction negative _ 0 (ds ++ 'e' :: '-' :: (es ++ rest)) = _
    rw [fraction_append digits single (by simp [letter]) fits]
    show exponent negative _ _ ('-' :: (es ++ rest)) = _
    rw [exponent_append exponents nonempty (fun c next => (ended c next).1) fits', Int.zero_sub]

/-! ### Numbers -/

theorem number_digit (first : c.isDigit = true) (cs : List Char) :
    number (c :: cs) = magnitude false (c :: cs) := by
  have plain : some c ≠ some '-' := by
    rintro same
    injection same with same
    rw [same] at first
    exact absurd first (by decide)
  rw [number, bind_ok ahead_cons, if_neg plain]

theorem isDigit_toDigits {n : ℕ} : ∀ c ∈ Nat.toDigits 10 n, c.isDigit = true :=
  fun _ mem => Nat.isDigit_of_mem_toDigits (by decide) (by decide) mem

/-- No number but zero starts with a zero. -/
theorem head_toDigits {n : ℕ} (pos : 0 < n) (h : Nat.toDigits 10 n = c :: ds) : c ≠ '0' := by
  induction n using Nat.strongRecOn generalizing ds with
  | _ n ih =>
    rw [Nat.toDigits_eq_if (by decide)] at h
    split at h
    · next small =>
      injection h with same
      rw [← same]
      interval_cases n <;> decide
    · next large =>
      obtain ⟨c', ds', front⟩ := List.exists_cons_of_ne_nil (Nat.toDigits_ne_nil (n := n / 10) (b := 10))
      rw [front, List.cons_append] at h
      injection h with same
      subst same
      exact ih (n / 10) (Nat.div_lt_self pos (by decide)) (by omega) front

/-- A whole number ends after its digits. -/
theorem afterInteger_ended (ended : Ended rest) (value : ℕ) :
    afterInteger false value 0 rest = .ok (.natural value.toUInt64, rest) := by
  cases rest with
  | nil => rfl
  | cons c rest =>
    obtain ⟨-, point, small, large⟩ := ended c rfl
    rw [afterInteger, bind_ok ahead_cons]
    rw [if_pos rfl]
    simp [point, small, large]
    rfl

/-- A zero stands alone before the point. -/
theorem magnitude_zero (ended : ∀ c, rest.head? = some c → digit? c = none) :
    magnitude negative ('0' :: rest) = afterInteger negative 0 0 rest := by
  have alone : (rest.head?.map isDigit).getD false = false := by
    cases rest with
    | nil => rfl
    | cons c rest => exact isDigit_of_digit? (ended c rfl)
  show (if (rest.head?.map isDigit).getD false = true then malformed
    else afterInteger negative 0 0) rest = _
  rw [alone]
  rfl

/-- The digits of a word are read as the word. -/
theorem number_word {n : ℕ} (fits : n ≤ largestWord) (ended : Ended rest) :
    number (Nat.toDigits 10 n ++ rest) = .ok (.natural n.toUInt64, rest) := by
  have digits := isDigit_toDigits (n := n)
  have value : Nat.ofDigitChars 10 (Nat.toDigits 10 n) 0 = n := Nat.ofDigitChars_ten_toDigits
  have stop : ∀ c, rest.head? = some c → digit? c = none := fun c next => (ended c next).1
  rcases Nat.eq_zero_or_pos n with rfl | pos
  · show number ('0' :: rest) = _
    rw [number_digit (by decide), magnitude_zero stop, afterInteger_ended ended]
  · obtain ⟨c, ds, front⟩ := List.exists_cons_of_ne_nil (Nat.toDigits_ne_nil (n := n) (b := 10))
    rw [front] at digits value ⊢
    rw [List.cons_append, number_digit (digits c List.mem_cons_self), ← List.cons_append,
      magnitude_digits (digits c List.mem_cons_self) (head_toDigits pos front)
        (fun c mem => digits c (List.mem_cons_of_mem _ mem)) stop (by rwa [value]), value,
      afterInteger_ended ended]

end NeighborGraph.Json
