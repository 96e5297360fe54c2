import NeighborGraph.Proofs.Codec.BitBuffer

/-!
# Fields are read back

Fields are values of chosen widths that follow each other in a buffer.  Together they make one number,
the first of them lowest (`number`), and a reader in front of that number reads them one by one
(`readEach_of_number`), whatever comes behind them.

A block is made of fields of one width, as wide as the widest of its values needs.  `unpack_block` is
the round trip; it holds for any number of slots that has room for the values, so for padded blocks,
too, and for a width of zero bits.
-/

namespace NeighborGraph

namespace VarLong

theorem lt_two_pow_bitLength (w : UInt64) : w.toNat < Nat.pow 2 (bitLength w) := by
  rw [bitLength]
  split
  · next h => rw [h]; decide
  · exact Nat.lt_log2_self

theorem bitLength_le (w : UInt64) : bitLength w ≤ 64 := by
  rw [bitLength]
  split
  · omega
  · next h =>
    have positive : w.toNat ≠ 0 := fun h0 => h (UInt64.toNat_inj.mp h0)
    have below := (Nat.log2_lt positive).mpr w.toNat_lt
    omega

end VarLong

namespace Bits

/-! ### Widths -/

theorem le_foldl_or (values : List UInt64) (start : UInt64) :
    start.toNat ≤ (values.foldl (· ||| ·) start).toNat := by
  induction values generalizing start with
  | nil => exact Nat.le_refl _
  | cons v values ih =>
    have first : start.toNat ≤ (start ||| v).toNat := by
      rw [UInt64.toNat_or]
      exact Nat.left_le_or
    exact Nat.le_trans first (ih (start ||| v))

theorem mem_le_foldl_or {v : UInt64} {values : List UInt64} (h : v ∈ values) (start : UInt64) :
    v.toNat ≤ (values.foldl (· ||| ·) start).toNat := by
  induction values generalizing start with
  | nil => cases h
  | cons u values ih =>
    rcases List.mem_cons.mp h with rfl | h
    · have here : v.toNat ≤ (start ||| v).toNat := by
        rw [UInt64.toNat_or]
        exact Nat.right_le_or
      exact Nat.le_trans here (le_foldl_or values _)
    · exact ih h (start ||| u)

theorem widthOf_le (values : List UInt64) : widthOf values ≤ 64 := VarLong.bitLength_le _

/-- Every value fits into the common width. -/
theorem lt_two_pow_widthOf {v : UInt64} {values : List UInt64} (h : v ∈ values) :
    v.toNat < Nat.pow 2 (widthOf values) :=
  Nat.lt_of_le_of_lt (mem_le_foldl_or h 0) (VarLong.lt_two_pow_bitLength _)

/-! ### Fields -/

open LittleEndian (decode)

/-- A value, and how many of its bits stand in a buffer. -/
structure Field where
  value : UInt64
  bits : Nat
deriving DecidableEq, Repr

/-- Bits of some fields together. -/
def span (fields : List Field) : Nat := (fields.map Field.bits).sum

/-- The number that fields make, the first one lowest. -/
def number : List Field → Nat
  | [] => 0
  | f :: rest => low f.bits f.value + number rest * 2 ^ f.bits

theorem span_cons (f : Field) (rest : List Field) : span (f :: rest) = f.bits + span rest := by
  simp [span]

theorem span_append (front back : List Field) : span (front ++ back) = span front + span back := by
  simp [span]

theorem low_lt (bits : Nat) (value : UInt64) : low bits value < 2 ^ bits :=
  Nat.mod_lt _ (Nat.two_pow_pos bits)

theorem low_of_lt {bits : Nat} {v : UInt64} (h : v.toNat < Nat.pow 2 bits) :
    low bits v = v.toNat := Nat.mod_eq_of_lt h

theorem number_lt (fields : List Field) : number fields < 2 ^ span fields := by
  induction fields with
  | nil => exact Nat.one_pos
  | cons f rest ih =>
    rw [number, span_cons]
    exact add_mul_two_pow_lt (low_lt f.bits f.value) ih

/-- Fields behind others stand above them. -/
theorem number_append (front back : List Field) :
    number (front ++ back) = number front + number back * 2 ^ span front := by
  induction front with
  | nil => simp [number, span]
  | cons f front ih =>
    have moved : number back * 2 ^ span front * 2 ^ f.bits
        = number back * 2 ^ (f.bits + span front) := by
      rw [Nat.mul_assoc, ← Nat.pow_add, Nat.add_comm (span front)]
    rw [List.cons_append, number, number, ih, span_cons, Nat.add_mul, moved, Nat.add_assoc]

/-- The fields in front are the low bits of the number. -/
theorem number_append_mod (front back : List Field) :
    number (front ++ back) % 2 ^ span front = number front := by
  rw [number_append, Nat.mul_comm, Nat.add_mul_mod_self_left, Nat.mod_eq_of_lt (number_lt front)]

/-! ### Reading -/

/-- Reads values of the given widths, one after the other. -/
def Reader.readEach (r : Reader) : (widths : List Nat) → Except EncodingFault (List UInt64)
  | [] => .ok []
  | bits :: widths =>
    match r.read bits with
    | .error fault => .error fault
    | .ok (value, r) => (r.readEach widths).map (value :: ·)

/-- A reader in front of the number of some fields reads them one by one. -/
theorem readEach_of_number {fields : List Field} (narrow : ∀ f ∈ fields, f.bits ≤ 64) {r : Reader}
    (ahead : decode r.bytes / 2 ^ r.position % 2 ^ span fields = number fields)
    (room : r.position + span fields ≤ 8 * r.bytes.length) :
    r.readEach (fields.map Field.bits)
      = .ok (fields.map fun f => (low f.bits f.value).toUInt64) := by
  induction fields generalizing r with
  | nil => rfl
  | cons f rest ih =>
    have wide := narrow f List.mem_cons_self
    rw [span_cons] at ahead room
    have first := r.read_fits wide (by omega)
    have split := mod_two_pow_add (decode r.bytes / 2 ^ r.position) f.bits (span rest)
    rw [ahead, number, Nat.div_div_eq_div_mul, ← Nat.pow_add] at split
    -- both sides are a number with `f.bits` bits below one moved up by them
    have positive := Nat.two_pow_pos f.bits
    have lowPart := congrArg (· % 2 ^ f.bits) split
    have highPart := congrArg (· / 2 ^ f.bits) split
    simp only [Nat.add_mul_mod_self_right, Nat.mod_mod, Nat.mod_eq_of_lt (low_lt f.bits f.value)]
      at lowPart
    simp only [Nat.add_mul_div_right _ _ positive, Nat.div_eq_of_lt (low_lt f.bits f.value),
      Nat.div_eq_of_lt (Nat.mod_lt _ positive), Nat.zero_add] at highPart
    have behind : r.position + f.bits + span rest ≤ 8 * r.bytes.length := by omega
    have others : ({ r with position := r.position + f.bits } : Reader).readEach
          (rest.map Field.bits)
        = .ok (rest.map fun g => (low g.bits g.value).toUInt64) :=
      ih (fun g member => narrow g (List.mem_cons_of_mem _ member)) highPart.symm behind
    rw [List.map_cons, Reader.readEach, first]
    simp only [others, ← lowPart]
    rfl

theorem readAll_eq_readEach (r : Reader) (bits count : Nat) :
    r.readAll bits count = r.readEach (List.replicate count bits) := by
  induction count generalizing r with
  | zero => rfl
  | succ count ih =>
    rw [List.replicate_succ, Reader.readAll, Reader.readEach]
    cases r.read bits with
    | error fault => rfl
    | ok read => simp only [ih]

/-! ### Blocks of one width -/

/-- Values as fields of one width. -/
def fieldsOf (bits : Nat) (values : List UInt64) : List Field := values.map (Field.mk · bits)

theorem span_fieldsOf (bits : Nat) (values : List UInt64) :
    span (fieldsOf bits values) = bits * values.length := by
  induction values with
  | nil => rfl
  | cons v values ih =>
    rw [List.length_cons, Nat.mul_succ, Nat.add_comm, ← ih]
    exact span_cons _ _

theorem concat_eq_number (bits : Nat) (values : List UInt64) :
    concat bits values = number (fieldsOf bits values) := by
  induction values with
  | nil => rfl
  | cons v values ih =>
    rw [concat, ih, Nat.shiftLeft_eq]
    rfl

/-- A reader in front of the number of a block reads the values that fit their width. -/
theorem readAll_of_concat {bits : Nat} (wide : bits ≤ 64) {values : List UInt64}
    (fits : ∀ v ∈ values, v.toNat < Nat.pow 2 bits) {r : Reader}
    (ahead : decode r.bytes / 2 ^ r.position % 2 ^ (bits * values.length) = concat bits values)
    (room : r.position + bits * values.length ≤ 8 * r.bytes.length) :
    r.readAll bits values.length = .ok values := by
  have narrow : ∀ f ∈ fieldsOf bits values, f.bits ≤ 64 := by
    simp [fieldsOf, wide]
  have widths : (fieldsOf bits values).map Field.bits = List.replicate values.length bits := by
    rw [fieldsOf, List.map_map]
    exact List.map_const'
  have same : ((fieldsOf bits values).map fun f => (low f.bits f.value).toUInt64) = values := by
    rw [fieldsOf, List.map_map]
    refine (List.map_congr_left fun v member => ?_).trans values.map_id
    show (low bits v).toUInt64 = v
    rw [low_of_lt (fits v member)]
    exact UInt64.ofNat_toNat
  rw [concat_eq_number, ← span_fieldsOf] at ahead
  rw [← span_fieldsOf] at room
  rw [readAll_eq_readEach, ← widths, readEach_of_number narrow ahead room, same]

theorem length_block (bits slots : Nat) (values : List UInt64) :
    (block bits slots values).length = byteCount bits slots := LittleEndian.length_encode _ _

/-- A block has the bytes that its values need. -/
theorem le_byteCount (bits : Nat) {slots count : Nat} (room : count ≤ slots) :
    bits * count ≤ 8 * byteCount bits slots := by
  have used : bits * count ≤ bits * slots := Nat.mul_le_mul_left bits room
  rw [byteCount, Nat.mul_comm slots bits]
  omega

theorem decode_block (bits : Nat) {slots : Nat} {values : List UInt64}
    (room : values.length ≤ slots) : decode (block bits slots values) = concat bits values := by
  have bytes : Nat.pow 256 (byteCount bits slots) = 2 ^ (8 * byteCount bits slots) :=
    (Nat.pow_mul 2 8 (byteCount bits slots)).symm
  have below : concat bits values < Nat.pow 256 (byteCount bits slots) := by
    rw [concat_eq_number, bytes]
    refine Nat.lt_of_lt_of_le (number_lt _) (Nat.pow_le_pow_right (by omega) ?_)
    rw [span_fieldsOf]
    exact le_byteCount bits room
  rw [block, LittleEndian.decode_encode, Nat.mod_eq_of_lt below]

/-- Values that fit their width are read back from their block, padded or not. -/
theorem unpack_block {bits slots : Nat} (wide : bits ≤ 64) {values : List UInt64}
    (fits : ∀ v ∈ values, v.toNat < Nat.pow 2 bits) (room : values.length ≤ slots) :
    unpack (block bits slots values) bits values.length = .ok values := by
  apply readAll_of_concat wide fits
  · show decode (block bits slots values) / 2 ^ 0 % 2 ^ (bits * values.length) = concat bits values
    rw [Nat.pow_zero, Nat.div_one, decode_block bits room, concat_eq_number, ← span_fieldsOf,
      Nat.mod_eq_of_lt (number_lt _)]
  · show 0 + bits * values.length ≤ 8 * (block bits slots values).length
    rw [length_block, Nat.zero_add]
    exact le_byteCount bits room

end Bits

end NeighborGraph
