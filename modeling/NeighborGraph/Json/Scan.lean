/-!
# Scanning — what stands next in a text

A `Scan` takes characters off the front of a text, or finds a flaw.  There are two kinds of flaw.  A
text is *malformed* when it is no JSON; it is *mistyped* when it is JSON as far as it was looked at
but holds a value of another type than the one asked for.  The first flaw ends the scan, so nothing
after it is looked at.

Strings come in two forms.  `Json.string` yields the characters, and there every surrogate has to be
half of a pair.  `Json.skipString` only looks for the end.
-/

namespace NeighborGraph

namespace Json

/-- Why a text does not yield the value asked for. -/
inductive Flaw
  | malformed
  | mistyped
deriving DecidableEq, Repr

/-- Takes characters off the front of a text. -/
abbrev Scan (α : Type) := StateT (List Char) (Except Flaw) α

/-- Finds the text malformed. -/
def malformed {α : Type} : Scan α := fun _ => .error .malformed

/-- Finds the text mistyped. -/
def mistyped {α : Type} : Scan α := fun _ => .error .mistyped

/-! ### Tokens -/

/-- Blanks between tokens. -/
def isBlank (c : Char) : Bool := c == ' ' || c == '\n' || c == '\t' || c == '\r'

/-- Passes blanks and looks at the character after them, which stays. -/
def peek : Scan (Option Char) := fun cs =>
  let rest := cs.dropWhile isBlank
  .ok (rest.head?, rest)

/-- The next character, a blank or not. -/
def next : Scan Char := fun cs =>
  match cs with
  | [] => .error .malformed
  | c :: rest => .ok (c, rest)

/-- Passes the next character. -/
def advance : Scan Unit := fun cs => .ok ((), cs.tail)

/-- Passes blanks and one given character. -/
def expect (c : Char) : Scan Unit := do
  if (← peek) = some c then advance else malformed

/-- Passes the given characters. -/
def expectAll : List Char → Scan Unit
  | [] => pure ()
  | c :: rest => do
    if (← next) = c then expectAll rest else malformed

/-- The end of the text, after blanks. -/
def finish : Scan Unit := do
  if (← peek).isNone then pure () else malformed

/-! ### Strings -/

/-- Value of a hexadecimal digit of either case. -/
def hexDigit? (c : Char) : Option Nat :=
  if '0' ≤ c ∧ c ≤ '9' then some (c.toNat - 48)
  else if 'a' ≤ c ∧ c ≤ 'f' then some (c.toNat - 87)
  else if 'A' ≤ c ∧ c ≤ 'F' then some (c.toNat - 55)
  else none

/-- A number of `count` hexadecimal digits that goes on after `high`. -/
def hexFrom (high : Nat) : (count : Nat) → Scan Nat
  | 0 => pure high
  | count + 1 => do
    match hexDigit? (← next) with
    | none => malformed
    | some d => hexFrom (high * 16 + d) count

/-- The character of a letter after a backslash, other than `u`. -/
def escaped? (c : Char) : Option Char :=
  match c with
  | '"' => some '"'
  | '\\' => some '\\'
  | '/' => some '/'
  | 'b' => some '\x08'
  | 'f' => some '\x0c'
  | 'n' => some '\n'
  | 'r' => some '\r'
  | 't' => some '\t'
  | _ => none

/-- Whether a code is the first half of a pair. -/
def isHighSurrogate (code : Nat) : Bool := 0xd800 ≤ code && code ≤ 0xdbff

/-- Whether a code is the second half of a pair. -/
def isLowSurrogate (code : Nat) : Bool := 0xdc00 ≤ code && code ≤ 0xdfff

/-- The character of a pair of surrogates. -/
def paired (high low : Nat) : Char :=
  Char.ofNat (0x10000 + (high - 0xd800) * 0x400 + (low - 0xdc00))

/-- The character of an escape by code, the `u` being passed. -/
def unicode : Scan Char := do
  let code ← hexFrom 0 4
  if isLowSurrogate code then malformed
  else if isHighSurrogate code then
    expectAll ['\\', 'u']
    let low ← hexFrom 0 4
    if isLowSurrogate low then pure (paired code low) else malformed
  else pure (Char.ofNat code)

/-- The character of an escape, the backslash being passed. -/
def escape : Scan Char := do
  let c ← next
  if c = 'u' then unicode
  else
    match escaped? c with
    | none => malformed
    | some d => pure d

/-- The characters up to the closing quote; `fuel` bounds their number. -/
def stringFrom : (fuel : Nat) → Scan (List Char)
  | 0 => malformed
  | fuel + 1 => do
    let c ← next
    if c = '"' then pure []
    else if c = '\\' then do
      let d ← escape
      return d :: (← stringFrom fuel)
    else if c.toNat < 0x20 then malformed
    else return c :: (← stringFrom fuel)

/-- The characters of a string, the opening quote being passed. -/
def string : Scan (List Char) := fun cs => stringFrom (cs.length + 1) cs

/-- Passes an escape, the backslash being passed. -/
def skipEscape : Scan Unit := do
  let c ← next
  if c = 'u' then discard (hexFrom 0 4)
  else if (escaped? c).isSome then pure ()
  else malformed

/-- Passes everything up to the closing quote; `fuel` bounds the number of characters. -/
def skipStringFrom : (fuel : Nat) → Scan Unit
  | 0 => malformed
  | fuel + 1 => do
    let c ← next
    if c = '"' then pure ()
    else if c = '\\' then do
      skipEscape
      skipStringFrom fuel
    else if c.toNat < 0x20 then malformed
    else skipStringFrom fuel

/-- Passes a string, the opening quote being passed. -/
def skipString : Scan Unit := fun cs => skipStringFrom (cs.length + 1) cs

end Json

end NeighborGraph
