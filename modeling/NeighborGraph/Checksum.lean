/-!
# Checksum — the cyclic redundancy check of graph files

The 32-bit reflected cyclic redundancy check with generator `0x04c11db7`: the register starts with
all bits set, every byte is added to its low end and shifted out bit by bit, and the final register
is complemented.
-/

namespace NeighborGraph.Checksum

/-- The generator polynomial, lowest power first. -/
def generator : UInt32 := 0xedb88320

/-- Shifts one bit out of the register. -/
def shift (register : UInt32) : UInt32 :=
  if register &&& 1 = 1 then (register >>> 1) ^^^ generator else register >>> 1

/-- Shifts `count` bits out of the register. -/
def shifts : (count : Nat) → (register : UInt32) → UInt32
  | 0, register => register
  | count + 1, register => shifts count (shift register)

/-- Takes one byte into the register. -/
def step (register : UInt32) (byte : UInt8) : UInt32 := shifts 8 (register ^^^ byte.toUInt32)

/-- Takes bytes into the register, in order. -/
def update (register : UInt32) (bytes : List UInt8) : UInt32 := bytes.foldl step register

/-- The checksum of some bytes. -/
def ofBytes (bytes : List UInt8) : UInt32 := ~~~ update 0xffffffff bytes

/-- The check value of CRC-32: the checksum of the digits from 1 to 9 in ASCII. -/
example : ofBytes [0x31, 0x32, 0x33, 0x34, 0x35, 0x36, 0x37, 0x38, 0x39] = 0xcbf43926 := by
  decide +kernel

end NeighborGraph.Checksum
