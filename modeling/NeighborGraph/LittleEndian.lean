/-!
# Little-endian bytes

A natural number written with a fixed number of bytes, least significant first, and the number a
byte list spells.  Every fixed-width field of the library, from the words of an adjacency list to
the header of a graph file, is one of these.
-/

namespace NeighborGraph.LittleEndian

/-- The `size` low bytes of `n`. -/
def encode : (size : Nat) → (n : Nat) → List UInt8
  | 0, _ => []
  | size + 1, n => UInt8.ofNat n :: encode size (n / 256)

/-- The number that bytes spell. -/
def decode : List UInt8 → Nat
  | [] => 0
  | b :: rest => b.toNat + 256 * decode rest

theorem length_encode (size n : Nat) : (encode size n).length = size := by
  induction size generalizing n with
  | zero => rfl
  | succ size ih => simp [encode, ih]

/-- Reading back what was written gives the number, less what does not fit. -/
theorem decode_encode (size n : Nat) : decode (encode size n) = n % Nat.pow 256 size := by
  induction size generalizing n with
  | zero => exact (Nat.mod_one n).symm
  | succ size ih =>
    have byte : (UInt8.ofNat n).toNat = n % 256 := by simp
    have power : Nat.pow 256 (size + 1) = 256 * Nat.pow 256 size := Nat.mul_comm _ _
    rw [encode, decode, ih, byte, power, Nat.mod_mul]

theorem decode_lt (bytes : List UInt8) : decode bytes < Nat.pow 256 bytes.length := by
  induction bytes with
  | nil => exact Nat.one_pos
  | cons b bytes ih =>
    have byte := b.toNat_lt
    have power : Nat.pow 256 (bytes.length + 1) = Nat.pow 256 bytes.length * 256 := rfl
    rw [decode, List.length_cons, power]
    omega

/-- Equally many bytes that spell the same number are the same. -/
theorem eq_of_decode_eq {bytes bytes' : List UInt8} (length : bytes.length = bytes'.length)
    (same : decode bytes = decode bytes') : bytes = bytes' := by
  induction bytes generalizing bytes' with
  | nil => exact (List.length_eq_zero_iff.mp length.symm).symm
  | cons b bytes ih =>
    cases bytes' with
    | nil => simp at length
    | cons b' bytes' =>
      have byte := b.toNat_lt
      have byte' := b'.toNat_lt
      simp only [decode] at same
      simp only [List.length_cons, Nat.add_right_cancel_iff] at length
      have first : b = b' := UInt8.toNat_inj.mp (by omega)
      have rest : bytes = bytes' := ih length (by omega)
      rw [first, rest]

/-- The part of `bytes` from `offset` on that is `size` long, if there is one. -/
def slice? (bytes : List UInt8) (offset size : Nat) : Option (List UInt8) :=
  if offset + size ≤ bytes.length then some ((bytes.drop offset).take size) else none

/-- The 64-bit word at the front, and the bytes after it. -/
def splitWord? (bytes : List UInt8) : Option (UInt64 × List UInt8) :=
  let word := bytes.take 8
  if word.length = 8 then some ((decode word).toUInt64, bytes.drop 8) else none

/-- The 8 bytes of a 64-bit word. -/
def word (w : UInt64) : List UInt8 := encode 8 w.toNat

end NeighborGraph.LittleEndian
