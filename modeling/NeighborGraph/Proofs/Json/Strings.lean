import NeighborGraph.Json.Scan
import NeighborGraph.Json.Writer
import Mathlib.Data.List.Basic
import Mathlib.Tactic.IntervalCases

/-!
# Strings read back

What is written between quotes is read back (`string_quote`): every character comes out of its escape
(`stringFrom_escape`), whether it stands for itself, has a letter of its own or is a control character
written as its code.
-/

namespace NeighborGraph.Json

/-! ### Scans in sequence -/

section Sequence

variable {α β : Type} {cs rest : List Char} {c : Char}

/-- A scan goes on where the one before it stopped. -/
theorem bind_ok {x : Scan α} {f : α → Scan β} {a : α} (h : x cs = .ok (a, rest)) :
    (x >>= f) cs = f a rest := by
  show (do let (a, rest) ← x cs; f a rest) = _
  rw [h]
  rfl

@[simp] theorem next_cons : next (c :: rest) = .ok (c, rest) := rfl

@[simp] theorem ahead_cons : ahead (c :: rest) = .ok (some c, c :: rest) := rfl

@[simp] theorem advance_cons : advance (c :: rest) = .ok ((), rest) := rfl

/-- Blanks are passed before looking. -/
theorem peek_blanks {blanks : List Char} (blank : ∀ c ∈ blanks, isBlank c = true)
    (h : isBlank c = false) : peek (blanks ++ c :: rest) = .ok (some c, c :: rest) := by
  have passed : (blanks ++ c :: rest).dropWhile isBlank = c :: rest := by
    rw [List.dropWhile_append_of_pos blank]
    exact List.dropWhile_cons_of_neg (by simp [h])
  show Except.ok ((List.dropWhile isBlank (blanks ++ c :: rest)).head?, _) = _
  rw [passed]
  rfl

theorem peek_cons (h : isBlank c = false) : peek (c :: rest) = .ok (some c, c :: rest) := by
  show peek ([] ++ c :: rest) = _
  exact peek_blanks (by simp) h

end Sequence

/-! ### Escapes -/

theorem hexDigit?_digitChar {d : ℕ} (h : d < 16) : hexDigit? (Nat.digitChar d) = some d := by
  interval_cases d <;> decide

/-- The code of a control character has two digits that count. -/
theorem escapeCode_eq {n : ℕ} (h : n < 32) : Writer.escapeCode (Char.ofNat n) =
    ['\\', 'u', '0', '0', Nat.digitChar (n / 16), Nat.digitChar (n % 16)] := by
  interval_cases n <;> decide

theorem hexFrom_cons {high count d : ℕ} {c : Char} {rest : List Char} (h : hexDigit? c = some d) :
    hexFrom high (count + 1) (c :: rest) = hexFrom (high * 16 + d) count rest := by
  rw [hexFrom, bind_ok next_cons]
  simp only [h]

theorem unicode_code {n : ℕ} (h : n < 32) (rest : List Char) :
    unicode ('0' :: '0' :: Nat.digitChar (n / 16) :: Nat.digitChar (n % 16) :: rest) =
      .ok (Char.ofNat n, rest) := by
  have zero : hexDigit? '0' = some 0 := by decide
  have high := hexDigit?_digitChar (d := n / 16) (by omega)
  have low := hexDigit?_digitChar (d := n % 16) (by omega)
  have code : hexFrom 0 4 ('0' :: '0' :: Nat.digitChar (n / 16) :: Nat.digitChar (n % 16) :: rest) =
      .ok (n, rest) := by
    rw [hexFrom_cons zero, hexFrom_cons zero, hexFrom_cons high, hexFrom_cons low,
      show ((0 * 16 + 0) * 16 + 0) * 16 + n / 16 = n / 16 by omega, Nat.div_add_mod' n 16]
    rfl
  have first : isHighSurrogate n = false := by
    simp only [isHighSurrogate, Bool.and_eq_false_iff, decide_eq_false_iff_not]
    omega
  have second : isLowSurrogate n = false := by
    simp only [isLowSurrogate, Bool.and_eq_false_iff, decide_eq_false_iff_not]
    omega
  rw [unicode, bind_ok code, first, second]
  rfl

variable {c d : Char} {cs text rest : List Char} {fuel : ℕ}

/-- The letter of a character. -/
theorem escape_letter (letter : d ≠ 'u') (h : escaped? d = some c) :
    escape (d :: text) = .ok (c, text) := by
  rw [escape, bind_ok next_cons, if_neg letter]
  simp only [h]
  rfl

theorem escape_code (control : c.toNat < 0x20) : escape ('u' :: '0' :: '0' ::
    Nat.digitChar (c.toNat / 16) :: Nat.digitChar (c.toNat % 16) :: text) = .ok (c, text) := by
  rw [escape, bind_ok next_cons, if_pos rfl, unicode_code control, Char.ofNat_toNat]

/-! ### Strings -/

/-- A character that stands for itself. -/
theorem stringFrom_cons (quote : c ≠ '"') (backslash : c ≠ '\\') (printed : ¬c.toNat < 0x20)
    (h : stringFrom fuel text = .ok (cs, rest)) :
    stringFrom (fuel + 1) (c :: text) = .ok (c :: cs, rest) := by
  rw [stringFrom, bind_ok next_cons, if_neg quote, if_neg backslash, if_neg printed, bind_ok h]
  rfl

/-- A character after a backslash. -/
theorem stringFrom_backslash {escaped : List Char} (read : escape escaped = .ok (c, text))
    (h : stringFrom fuel text = .ok (cs, rest)) :
    stringFrom (fuel + 1) ('\\' :: escaped) = .ok (c :: cs, rest) := by
  rw [stringFrom, bind_ok next_cons, if_neg (by decide), if_pos rfl, bind_ok read, bind_ok h]
  rfl

/-- A character comes out of what it is written as. -/
theorem stringFrom_escape (c : Char) (h : stringFrom fuel text = .ok (cs, rest)) :
    stringFrom (fuel + 1) (Writer.escape c ++ text) = .ok (c :: cs, rest) := by
  rw [Writer.escape]
  split
  · next quote => exact stringFrom_backslash (escape_letter (by decide) (by rw [quote]; rfl)) h
  split
  · next backslash => exact stringFrom_backslash (escape_letter (by decide) (by rw [backslash]; rfl)) h
  split
  · next b => exact stringFrom_backslash (escape_letter (by decide) (by rw [b]; rfl)) h
  split
  · next f => exact stringFrom_backslash (escape_letter (by decide) (by rw [f]; rfl)) h
  split
  · next n => exact stringFrom_backslash (escape_letter (by decide) (by rw [n]; rfl)) h
  split
  · next r => exact stringFrom_backslash (escape_letter (by decide) (by rw [r]; rfl)) h
  split
  · next t => exact stringFrom_backslash (escape_letter (by decide) (by rw [t]; rfl)) h
  split
  · next control =>
    have code := escapeCode_eq control
    rw [Char.ofNat_toNat] at code
    rw [code]
    exact stringFrom_backslash (escape_code control) h
  · next quote backslash _ _ _ _ _ printed => exact stringFrom_cons quote backslash printed h

theorem stringFrom_flatMap {cs : List Char} (room : cs.length < fuel) :
    stringFrom fuel (cs.flatMap Writer.escape ++ '"' :: rest) = .ok (cs, rest) := by
  induction cs generalizing fuel with
  | nil =>
    obtain ⟨fuel, rfl⟩ := Nat.exists_eq_add_one.mpr (Nat.zero_lt_of_lt room)
    rfl
  | cons c cs ih =>
    rw [List.length_cons] at room
    obtain ⟨fuel, rfl⟩ := Nat.exists_eq_add_one.mpr (Nat.zero_lt_of_lt room)
    rw [List.flatMap_cons, List.append_assoc]
    exact stringFrom_escape c (ih (by omega))

theorem length_escape_pos (c : Char) : 0 < (Writer.escape c).length := by
  simp only [Writer.escape, Writer.escapeCode]
  repeat' split
  all_goals simp

theorem quote_append (cs rest : List Char) :
    Writer.quote cs ++ rest = '"' :: (cs.flatMap Writer.escape ++ '"' :: rest) := by
  simp [Writer.quote]

/-- What is written between quotes is read back, the opening quote being passed. -/
theorem string_quote (cs rest : List Char) :
    string (cs.flatMap Writer.escape ++ '"' :: rest) = .ok (cs, rest) := by
  have longer : cs.length ≤ (cs.flatMap Writer.escape).length := by
    induction cs with
    | nil => simp
    | cons c cs ih =>
      have := length_escape_pos c
      simp only [List.flatMap_cons, List.length_append, List.length_cons]
      omega
  refine stringFrom_flatMap ?_
  simp only [List.length_append]
  omega

end NeighborGraph.Json
