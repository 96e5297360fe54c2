import NeighborGraph.Json.Number

/-!
# Passing values

A member that nobody asks for is passed without reading it.  It has to be JSON, but its numbers may
be of any size and the surrogates in its strings need no partner.
-/

namespace NeighborGraph

namespace Json

/-- Looks for the next part of a list or a record that `close` ends: true where one stands, and a
comma before it is passed.  Only the first part has no comma before it. -/
def separator (close : Char) (first : Bool) : Scan Bool := do
  match ← peek with
  | none => malformed
  | some c =>
    if c = close then pure false
    else if first then pure true
    else if c = ',' then
      advance
      match ← peek with
      | none => malformed
      | some c => if c = close then malformed else pure true
    else malformed

mutual

/-- Passes a value; `fuel` bounds the number of its parts. -/
def skipValue : (fuel : Nat) → Scan Unit
  | 0 => malformed
  | fuel + 1 => do
    match ← peek with
    | some 'n' => expectAll "null".toList
    | some 't' => expectAll "true".toList
    | some 'f' => expectAll "false".toList
    | some '"' => advance; skipString
    | some '[' => advance; skipElements fuel true
    | some '{' => advance; skipMembers fuel true
    | some _ => skipNumber
    | none => malformed

/-- Passes the elements of a list and its end. -/
def skipElements : (fuel : Nat) → (first : Bool) → Scan Unit
  | 0, _ => malformed
  | fuel + 1, first => do
    if ← separator ']' first then
      skipValue fuel
      skipElements fuel false
    else advance

/-- Passes the members of a record and its end. -/
def skipMembers : (fuel : Nat) → (first : Bool) → Scan Unit
  | 0, _ => malformed
  | fuel + 1, first => do
    if ← separator '}' first then
      expect '"'
      skipString
      expect ':'
      skipValue fuel
      skipMembers fuel false
    else advance

end

/-- Passes a value. -/
def skip : Scan Unit := fun cs => skipValue (2 * cs.length + 2) cs

end Json

end NeighborGraph
