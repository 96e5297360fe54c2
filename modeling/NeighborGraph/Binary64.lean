/-!
# Binary64 — floating-point words kept bit for bit

A relationship property, and every entry of a floating-point column, is stored as its word: two
words are equal exactly when their bits are, so the payload of a NaN survives storing, sorting and
reading back.  Arithmetic goes through `Float`; only the words that arithmetic itself makes are
fixed here (`add`, `min`, `max`).

Nothing in this file rounds: `Binary32.toFloat` is exact, because every 32-bit number is also a
64-bit number.
-/

namespace NeighborGraph

/-! ### 64-bit words -/

/-- A 64-bit floating-point number as its word. -/
structure Binary64 where
  bits : UInt64
deriving DecidableEq, Inhabited, Repr

namespace Binary64

/-- The number a word stands for; every NaN word stands for the one NaN. -/
def toFloat (x : Binary64) : Float := Float.ofBits x.bits

/-- The word of a number. -/
def ofFloat (x : Float) : Binary64 := ⟨x.toBits⟩

/-- The word written where a property is absent. -/
def nan : Binary64 := ⟨0x7ff8000000000000⟩

/-- The word of the number one. -/
def one : Binary64 := ⟨0x3ff0000000000000⟩

/-- The word of an operation without a meaningful value, such as the sum of two opposite
infinities. -/
def invalid : Binary64 := ⟨0xfff8000000000000⟩

/-- Bits without the sign. -/
def magnitude (x : Binary64) : UInt64 := x.bits &&& 0x7fffffffffffffff

/-- A word is NaN when its magnitude lies above that of infinity. -/
def isNaN (x : Binary64) : Bool := 0x7ff0000000000000 < x.magnitude

/-- A NaN with its quiet bit set; the payload stays. -/
def quiet (x : Binary64) : Binary64 := ⟨x.bits ||| 0x0008000000000000⟩

/-- The sum.  A NaN operand is handed on, the first one before the second. -/
def add (x y : Binary64) : Binary64 :=
  if x.isNaN then x.quiet
  else if y.isNaN then y.quiet
  else
    let sum := x.toFloat + y.toFloat
    if sum.isNaN then invalid else ofFloat sum

/-- The smaller number; of equal ones, such as the two zeros, the second.  A NaN gives way to the
other operand, and of two NaNs the first is left as it is. -/
def min (x y : Binary64) : Binary64 :=
  if y.isNaN then x else if x.toFloat < y.toFloat then x else y

/-- The larger number; of equal ones, such as the two zeros, the second.  A NaN gives way to the
other operand, and of two NaNs the first is left as it is. -/
def max (x y : Binary64) : Binary64 :=
  if y.isNaN then x else if y.toFloat < x.toFloat then x else y

end Binary64

/-! ### 32-bit words -/

/-- A 32-bit floating-point number as its word. -/
structure Binary32 where
  bits : UInt32
deriving DecidableEq, Inhabited, Repr

namespace Binary32

/-- The number a word stands for, in 32-bit arithmetic. -/
def toFloat32 (x : Binary32) : Float32 := Float32.ofBits x.bits

/-- Two to the power `e`, for exponents whose power is a normal 64-bit number. -/
def powerOfTwo (e : Int) : Float := Float.ofBits ((e + 1023).toNat.toUInt64 <<< 52)

/-- The same number with 64 bits.  A finite one is its significand times a power of two, and both
factors and the product are exact. -/
def toFloat (x : Binary32) : Float :=
  let exponent := ((x.bits >>> 23) &&& 0xff).toNat
  let fraction := (x.bits &&& 0x7fffff).toNat
  let size : Float :=
    if exponent = 255 then
      Float.ofBits (if fraction = 0 then 0x7ff0000000000000 else 0x7ff8000000000000)
    else if exponent = 0 then Float.ofNat fraction * powerOfTwo (-149)
    else Float.ofNat (fraction + 0x800000) * powerOfTwo ((exponent : Int) - 150)
  if x.bits >>> 31 = 0 then size else -size

end Binary32

end NeighborGraph
