import NeighborGraph.Json.Scan

/-!
# Numbers in a text

A number without a fraction or an exponent is a whole number as long as it fits a signed or an
unsigned 64-bit word; every other number is a floating-point number.

The value of a floating-point number is found in steps that round.  Its digits are gathered in a
word; once a digit no longer fits, no further ones are gathered.  The word is rounded to a
floating-point number, which is then multiplied with, or divided by, the power of ten that the point
and the exponent ask for.  The result is near the number that is written, but it need not be the
nearest one.

A number that is too large is malformed, and one that is too small is zero.
-/

namespace NeighborGraph

namespace Json

/-- A number as it is written. -/
inductive Number
  | natural (value : UInt64)
  /-- The opposite of a value between 1 and `2^63`. -/
  | negative (value : UInt64)
  | float (value : Float)

/-! ### Digits -/

/-- Value of a decimal digit. -/
def digit? (c : Char) : Option Nat := if '0' ≤ c ∧ c ≤ '9' then some (c.toNat - 48) else none

/-- Whether a character is a decimal digit. -/
def isDigit (c : Char) : Bool := (digit? c).isSome

/-- Largest word. -/
def largestWord : Nat := 18446744073709551615

/-- Digits gathered from the front of a text. -/
structure Gathered where
  value : Nat
  count : Nat
  rest : List Char

/-- Gathers digits after `value` for as long as the result fits a word. -/
def gather (value count : Nat) : List Char → Gathered
  | [] => ⟨value, count, []⟩
  | c :: rest =>
    match digit? c with
    | none => ⟨value, count, c :: rest⟩
    | some d =>
      if value * 10 + d ≤ largestWord then gather (value * 10 + d) (count + 1) rest
      else ⟨value, count, c :: rest⟩

/-- Passes digits; their number. -/
def skipDigits : Scan Nat := fun cs =>
  .ok ((cs.takeWhile isDigit).length, cs.dropWhile isDigit)

/-- The character that stands next, if any. -/
def ahead : Scan (Option Char) := fun cs => .ok (cs.head?, cs)

/-! ### Scaling -/

/-- Largest exponent with a power of ten of its own. -/
def largestPower : Nat := 308

/-- A power of ten, rounded. -/
def powerOfTen (n : Nat) : Float := Float.ofNat (Nat.pow 10 n)

/-- A magnitude times a power of ten, or nothing when that is too large.  Exponents beyond the
powers are worked off in steps of the largest one; `fuel` bounds their number. -/
def scaleFrom : (fuel : Nat) → Float → Int → Option Float
  | fuel, x, exponent =>
    if exponent.natAbs ≤ largestPower then
      if 0 ≤ exponent then
        let y := x * powerOfTen exponent.natAbs
        if y.isInf then none else some y
      else some (x / powerOfTen exponent.natAbs)
    else if x == 0.0 then some x
    else if 0 ≤ exponent then none
    else
      match fuel with
      | 0 => some 0.0
      | fuel + 1 => scaleFrom fuel (x / powerOfTen largestPower) (exponent + largestPower)

/-- The number of a sign, a word of digits and an exponent. -/
def scale (negative : Bool) (word : Nat) (exponent : Int) : Scan Number :=
  match scaleFrom exponent.natAbs (Float.ofNat word) exponent with
  | none => malformed
  | some x => pure (.float (if negative then -x else x))

/-! ### Parts of a number -/

/-- Largest size of an exponent that is told from larger ones. -/
def largestExponent : Nat := 2147483647

/-- The digits of an exponent that go on after `value`; nothing when it grows too large. -/
def exponentFrom (value : Nat) : List Char → Option Nat × List Char
  | [] => (some value, [])
  | c :: rest =>
    match digit? c with
    | none => (some value, c :: rest)
    | some d =>
      if value * 10 + d ≤ largestExponent then exponentFrom (value * 10 + d) rest
      else (none, rest.dropWhile isDigit)

/-- The sign of an exponent: whether it is negative. -/
def exponentSign : Scan Bool := do
  match ← ahead with
  | some '+' => advance; pure false
  | some '-' => advance; pure true
  | _ => pure false

/-- Goes on after the letter of an exponent. -/
def exponent (negative : Bool) (word : Nat) (places : Int) : Scan Number := do
  let below ← exponentSign
  match digit? (← next) with
  | none => malformed
  | some d => fun cs =>
    match exponentFrom d cs with
    | (some e, rest) => scale negative word (if below then places - e else places + e) rest
    | (none, rest) =>
      if word ≠ 0 ∧ ¬ below then .error .malformed
      else .ok (.float (if negative then -0.0 else 0.0), rest)

/-- Whether a character opens an exponent. -/
def opensExponent (c : Option Char) : Bool := c == some 'e' || c == some 'E'

/-- Goes on where an exponent may follow. -/
def maybeExponent (negative : Bool) (word : Nat) (places : Int) : Scan Number := do
  if opensExponent (← ahead) then
    advance
    exponent negative word places
  else scale negative word places

/-- Goes on after the point. -/
def fraction (negative : Bool) (word : Nat) (places : Int) : Scan Number := fun cs =>
  let g := gather word 0 cs
  let dropped := g.rest.takeWhile isDigit
  if g.count = 0 ∧ dropped.isEmpty then .error .malformed
  else maybeExponent negative g.value (places - g.count) (g.rest.dropWhile isDigit)

/-- A whole number. -/
def whole (negative : Bool) (word : Nat) : Number :=
  if negative then
    if word = 0 ∨ 9223372036854775808 < word then .float (-(Float.ofNat word))
    else .negative word.toUInt64
  else .natural word.toUInt64

/-- Goes on after the digits before the point. -/
def afterInteger (negative : Bool) (word dropped : Nat) : Scan Number := do
  match ← ahead with
  | some '.' => advance; fraction negative word dropped
  | some 'e' | some 'E' => advance; exponent negative word dropped
  | _ => if dropped = 0 then pure (whole negative word) else scale negative word dropped

/-- A number without its sign.  A zero stands alone before the point. -/
def magnitude (negative : Bool) : Scan Number := do
  let c ← next
  match digit? c with
  | none => malformed
  | some 0 =>
    if ((← ahead).map isDigit).getD false then malformed else afterInteger negative 0 0
  | some d => fun cs =>
    let g := gather d 1 cs
    afterInteger negative g.value (g.rest.takeWhile isDigit).length (g.rest.dropWhile isDigit)

/-- A number. -/
def number : Scan Number := do
  if (← ahead) = some '-' then
    advance
    magnitude true
  else magnitude false

/-! ### Passing a number -/

/-- Passes one digit or more. -/
def skipSomeDigits : Scan Unit := do
  if (← skipDigits) = 0 then malformed else pure ()

/-- Passes an exponent, if there is one. -/
def skipExponent : Scan Unit := do
  if opensExponent (← ahead) then
    advance
    discard exponentSign
    skipSomeDigits
  else pure ()

/-- Passes a number, however large. -/
def skipNumber : Scan Unit := do
  if (← ahead) = some '-' then advance
  if (← ahead) = some '0' then
    advance
    if ((← ahead).map isDigit).getD false then malformed
  else skipSomeDigits
  if (← ahead) = some '.' then
    advance
    skipSomeDigits
  skipExponent

end Json

end NeighborGraph
