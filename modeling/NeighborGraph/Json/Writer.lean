import NeighborGraph.Decimal.Layout
import NeighborGraph.Json.Number

/-!
# Writing values

A `Writer` sets a value at a given indent.  The elements of a list and the members of a record stand
on lines of their own, two blanks deeper than the brackets around them; an empty list is a pair of
brackets.

In a string only the quote, the backslash and the control characters are escaped, so every other
character stands for itself.  A number that is not finite is written as null.
-/

namespace NeighborGraph

namespace Json

/-- Sets a value at an indent. -/
abbrev Writer := (indent : Nat) → List Char

namespace Writer

/-- A number has the fewest digits that read back, and a point.  It is written positionally from
`0.00001` on, and up to sixteen digits before the point. -/
def numberLayout : Decimal.Layout where
  positional := some (-5, 15)
  keepPoint := true
  tie := .even
  nan := "null"
  positiveInfinity := "null"
  negativeInfinity := "null"

/-- Null. -/
def null : Writer := fun _ => "null".toList

/-- A whole number. -/
def word (n : UInt64) : Writer := fun _ => Nat.toDigits 10 n.toNat

/-- A number. -/
def real (x : Float) : Writer := fun _ => numberLayout.characters x

/-- A value or null. -/
def optional {α : Type} (write : α → Writer) : Option α → Writer
  | none => null
  | some a => write a

/-! ### Strings -/

/-- The escape of a control character without a letter of its own. -/
def escapeCode (c : Char) : List Char :=
  let digits := Nat.toDigits 16 c.toNat
  "\\u".toList ++ List.replicate (4 - digits.length) '0' ++ digits

/-- What a character is written as. -/
def escape (c : Char) : List Char :=
  if c = '"' then ['\\', '"']
  else if c = '\\' then ['\\', '\\']
  else if c = '\x08' then ['\\', 'b']
  else if c = '\x0c' then ['\\', 'f']
  else if c = '\n' then ['\\', 'n']
  else if c = '\r' then ['\\', 'r']
  else if c = '\t' then ['\\', 't']
  else if c.toNat < 0x20 then escapeCode c
  else [c]

/-- The characters of a string between quotes. -/
def quote (cs : List Char) : List Char := '"' :: cs.flatMap escape ++ ['"']

/-- A text. -/
def text (s : String) : Writer := fun _ => quote s.toList

/-! ### Lists and records -/

/-- A new line at an indent. -/
def line (indent : Nat) : List Char := '\n' :: List.replicate (2 * indent) ' '

/-- Parts on lines of their own, with commas between them. -/
def lines (indent : Nat) : List Writer → List Char
  | [] => []
  | [w] => line indent ++ w indent
  | w :: rest => line indent ++ w indent ++ ',' :: lines indent rest

/-- Parts between brackets. -/
def block (opening closing : Char) (parts : List Writer) : Writer := fun indent =>
  if parts.isEmpty then [opening, closing]
  else opening :: lines (indent + 1) parts ++ line indent ++ [closing]

/-- A list. -/
def list (elements : List Writer) : Writer := block '[' ']' elements

/-- A member of a record. -/
def member (name : String) (value : Writer) : Writer := fun indent =>
  quote name.toList ++ ':' :: ' ' :: value indent

/-- A record. -/
def record (members : List (String × Writer)) : Writer :=
  block '\x7b' '\x7d' (members.map fun (name, value) => member name value)

/-- A value as a whole text. -/
def toText (w : Writer) : String := String.ofList (w 0)

end Writer

end Json

end NeighborGraph
