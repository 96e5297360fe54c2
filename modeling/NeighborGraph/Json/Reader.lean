import NeighborGraph.Json.Skip

/-!
# Reading typed values

Every reader takes one value of the type it asks for off the front of a text.  A value of another
type is mistyped, once enough of it was looked at to tell that it is JSON so far: a word and a
number are looked at as a whole, a string up to its end, and a list or a record not at all.

A record is written in one of two ways.  In braces its members stand in any order, each with a name;
one that is not asked for is passed, and a name that stands twice is mistyped.  In brackets its
members stand in the order of the fields, and the last ones may be missing.  Either way a field that
is not required keeps what it was.
-/

namespace NeighborGraph

namespace Json

/-! ### Single values -/

/-- Looks at a value that is not of the type asked for. -/
def otherType {α : Type} : Scan α := do
  match ← peek with
  | none => malformed
  | some c =>
    if c = 'n' then expectAll "null".toList
    else if c = 't' then expectAll "true".toList
    else if c = 'f' then expectAll "false".toList
    else if c = '"' then
      advance
      discard string
    else if c = '-' ∨ isDigit c then discard number
    else if c = '[' ∨ c = '{' then pure ()
    else malformed
    mistyped

/-- Whether a number may start with a character. -/
def startsNumber (c : Option Char) : Bool := c == some '-' || (c.map isDigit).getD false

/-- A whole number that fits a word. -/
def word : Scan UInt64 := do
  if startsNumber (← peek) then
    match ← number with
    | .natural n => pure n
    | _ => mistyped
  else otherType

/-- A number. -/
def real : Scan Float := do
  if startsNumber (← peek) then
    match ← number with
    | .natural n => pure (Float.ofNat n.toNat)
    | .negative n => pure (-(Float.ofNat n.toNat))
    | .float x => pure x
  else otherType

/-- A text. -/
def text : Scan String := do
  if (← peek) = some '"' then
    advance
    return String.ofList (← string)
  else otherType

/-- A value or null. -/
def optional {α : Type} (read : Scan α) : Scan (Option α) := do
  if (← peek) = some 'n' then
    expectAll "null".toList
    return none
  else return some (← read)

/-- Null. -/
def null : Scan Unit := do
  if (← peek) = some 'n' then expectAll "null".toList else otherType

/-- The name of a member of a record; it has to be a string. -/
def memberName : Scan String := do
  expect '"'
  return String.ofList (← string)

/-- The choice that has a name. -/
def choose {α : Type} (choices : List (String × α)) (name : String) : Scan α :=
  match choices.lookup name with
  | none => mistyped
  | some a => pure a

/-- One of several choices: its name, or its name as the only member of a record, with null. -/
def choice {α : Type} (choices : List (String × α)) : Scan α := do
  match ← peek with
  | some '"' => choose choices (← text)
  | some '{' =>
    advance
    let a ← choose choices (← memberName)
    expect ':'
    null
    expect '}'
    return a
  | _ => malformed

/-! ### Lists -/

/-- The elements of a list and its end; `fuel` bounds their number. -/
def elementsFrom {α : Type} (read : Scan α) : (fuel : Nat) → (first : Bool) → Scan (List α)
  | 0, _ => malformed
  | fuel + 1, first => do
    if ← separator ']' first then
      let a ← read
      return a :: (← elementsFrom read fuel false)
    else
      advance
      return []

/-- A list. -/
def list {α : Type} (read : Scan α) : Scan (List α) := do
  if (← peek) = some '[' then
    advance
    fun cs => elementsFrom read (cs.length + 1) true cs
  else otherType

/-! ### Records -/

/-- A field of a record: its name, how its value changes the record, and whether it has to be
there. -/
structure Field (α : Type) where
  name : String
  read : α → Scan α
  required : Bool := false

/-- The members of a record in braces and its end; `fuel` bounds their number. -/
def membersFrom {α : Type} (fields : List (Field α)) :
    (fuel : Nat) → (first : Bool) → (seen : List String) → α → Scan α
  | 0, _, _, _ => malformed
  | fuel + 1, first, seen, a => do
    if ← separator '}' first then
      let name ← memberName
      match fields.find? (·.name == name) with
      | none =>
        expect ':'
        skip
        membersFrom fields fuel false seen a
      | some field =>
        if seen.contains name then mistyped
        else
          expect ':'
          let a ← field.read a
          membersFrom fields fuel false (name :: seen) a
    else if fields.any fun field => field.required && !seen.contains field.name then mistyped
    else
      advance
      return a

/-- The members of a record in brackets and its end. -/
def positionsFrom {α : Type} : List (Field α) → (first : Bool) → α → Scan α
  | [], _, a => do
    expect ']'
    return a
  | field :: rest, first, a => do
    if ← separator ']' first then
      let a ← field.read a
      positionsFrom rest false a
    else if (field :: rest).any (·.required) then mistyped
    else
      advance
      return a

/-- A record, read into `a`. -/
def record {α : Type} (fields : List (Field α)) (a : α) : Scan α := do
  match ← peek with
  | some '{' =>
    advance
    fun cs => membersFrom fields (cs.length + 1) true [] a cs
  | some '[' =>
    advance
    positionsFrom fields true a
  | _ => otherType

/-! ### Texts -/

/-- The value that a whole text holds. -/
def parse {α : Type} (read : Scan α) (cs : List Char) : Except Flaw α :=
  match read cs with
  | .error flaw => .error flaw
  | .ok (a, rest) =>
    match finish rest with
    | .error flaw => .error flaw
    | .ok _ => .ok a

end Json

end NeighborGraph
