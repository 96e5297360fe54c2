import Mathlib.Data.Nat.Digits.Lemmas
import NeighborGraph.Proofs.Codec.Bits
import NeighborGraph.Proofs.Codec.Exact
import NeighborGraph.Proofs.Codec.VarLong

/-!
# Which bytes spell a word

`VarLong.Spelled` is the grammar of var-longs: at most ten bytes, of which the last one and no other
carries the terminator, and of a tenth byte only the lowest bit.  `VarLong.value` is the number such
bytes stand for, seven bits each, as digits of base 128.

* `decode_eq_ok_iff` — what is accepted at the front of some bytes is a spelled word, and the word is
  its value.  The decoder is followed from the middle of a word (`decodeFrom_eq_ok_iff`), with the
  number of groups behind it as the index of the induction.
* `length_eq_size_iff` — a spelling has the length `VarLong.size` says if and only if it does not end
  in a group of zeros, and no spelling of the word is shorter (`size_le_length`).
* `spelled_unique` — two spellings of one length that stand for the same word are the same bytes.

Together they make `VarLong.encode` the shortest of all spellings (`readVarLong_exact`).
-/

namespace NeighborGraph

namespace VarLong

/-! ### The grammar -/

/-- The seven bits that a byte brings. -/
def group (byte : UInt8) : Nat := (byte &&& 0x7f).toNat

/-- The number that groups stand for, the lowest group first. -/
def value (part : List UInt8) : Nat := Nat.ofDigits 128 (part.map group)

/-- The bytes `inner` and then `last` finish a word of which `before` bytes are there. -/
structure Finishes (before : Nat) (inner : List UInt8) (last : UInt8) : Prop where
  unmarked : ∀ byte ∈ inner, isLast byte = false
  marked : isLast last = true
  fits : before + inner.length + 1 ≤ maxBytes
  top : before + inner.length + 1 = maxBytes → last &&& 0x7e = 0

/-- The bytes are one word, from its first byte to its last. -/
def Spelled (part : List UInt8) : Prop :=
  ∃ inner last, part = inner ++ [last] ∧ Finishes 0 inner last

theorem Spelled.ne_nil {part : List UInt8} (h : Spelled part) : part ≠ [] := by
  obtain ⟨inner, last, rfl, -⟩ := h
  simp

theorem value_cons (byte : UInt8) (rest : List UInt8) :
    value (byte :: rest) = group byte + 128 * value rest := by
  simp [value, Nat.ofDigits_cons]

theorem value_singleton (byte : UInt8) : value [byte] = group byte := by
  simp [value]

theorem value_append (front back : List UInt8) :
    value (front ++ back) = value front + 128 ^ front.length * value back := by
  simp [value, Nat.ofDigits_append]

theorem pow_groups (count : Nat) : 128 ^ count = 2 ^ (7 * count) := by
  rw [pow_mul]
  rfl

/-! ### Single bytes -/

theorem group_lt (byte : UInt8) : group byte < 128 := by
  have mask : (0x7f : UInt8).toNat = 2 ^ 7 - 1 := rfl
  rw [group, UInt8.toNat_and, mask, Nat.and_two_pow_sub_one_eq_mod]
  exact Nat.mod_lt _ (by decide)

theorem lt_of_mem_groups {part : List UInt8} : ∀ digit ∈ part.map group, digit < 128 := by
  intro digit member
  obtain ⟨byte, -, rfl⟩ := List.mem_map.mp member
  exact group_lt byte

/-- What holds of the bytes of all numbers below 256 holds of every byte. -/
theorem of_all_bytes {P : UInt8 → Prop} (all : ∀ b : Fin 256, P (UInt8.ofNat b)) (byte : UInt8) :
    P byte := by
  have each := all ⟨byte.toNat, byte.toNat_lt⟩
  simpa only [UInt8.ofNat_toNat] using each

theorem toNat_eq_group (byte : UInt8) :
    byte.toNat = group byte + if isLast byte then 128 else 0 :=
  of_all_bytes (P := fun b => b.toNat = group b + if isLast b then 128 else 0)
    (by decide +kernel) byte

/-- A byte is its group and its mark. -/
theorem eq_of_group_eq {b c : UInt8} (same : group b = group c) (mark : isLast b = isLast c) :
    b = c := by
  apply UInt8.toNat_inj.mp
  rw [toNat_eq_group b, toNat_eq_group c, same, mark]

theorem group_eq_zero_iff {byte : UInt8} : group byte = 0 ↔ byte &&& 0x7f = 0 := by
  rw [group, ← UInt8.toNat_inj]
  rfl

theorem group_le_one {byte : UInt8} : byte &&& 0x7e = 0 → group byte ≤ 1 :=
  of_all_bytes (P := fun b => b &&& 0x7e = 0 → group b ≤ 1) (by decide +kernel) byte

/-- Up to nine groups fit any word, and a tenth only where it brings the topmost bit alone. -/
theorem overflows_eq_false_iff {before : Nat} {byte : UInt8} :
    overflows (7 * before) byte = false
      ↔ before + 1 < maxBytes ∨ before + 1 = maxBytes ∧ byte &&& 0x7e = 0 := by
  show (decide (63 < 7 * before) || (7 * before == 63 && byte &&& 0x7e != 0)) = false
    ↔ before + 1 < 10 ∨ before + 1 = 10 ∧ byte &&& 0x7e = 0
  by_cases few : before < 9
  · have below : ¬63 < 7 * before := by omega
    have other : 7 * before ≠ 63 := by omega
    simp only [below, decide_false, beq_eq_false_iff_ne.mpr other, Bool.false_and, Bool.or_false,
      true_iff]
    omega
  · by_cases tenth : before = 9
    · simp [tenth]
    · have beyond : 63 < 7 * before := by omega
      simp only [beyond, decide_true, Bool.true_or, Bool.true_eq_false, false_iff]
      omega

/-- A group that does not overflow the word is added to the groups before it. -/
theorem toNat_or_payload {before : Nat} {word : UInt64} {byte : UInt8}
    (small : word.toNat < 128 ^ before) (fits : overflows (7 * before) byte = false) :
    (word ||| payload (7 * before) byte).toNat = word.toNat + 128 ^ before * group byte := by
  have power := pow_groups before
  have bits : (byte &&& 0x7f).toUInt64.toNat = group byte := UInt8.toNat_toUInt64 _
  have inside : 7 * before < 64 ∧ group byte * 2 ^ (7 * before) < 2 ^ 64 := by
    rcases overflows_eq_false_iff.mp fits with few | ⟨tenth, top⟩
    · have few : before ≤ 8 := by simp only [maxBytes] at few; omega
      have wide : 2 ^ (7 * before) ≤ 2 ^ 56 := Nat.pow_le_pow_right (by decide) (by omega)
      have least := group_lt byte
      exact ⟨by omega, by nlinarith⟩
    · have nine : before = 9 := by simp only [maxBytes] at tenth; omega
      have bit := group_le_one top
      subst nine
      exact ⟨by decide, by omega⟩
  obtain ⟨shift, room⟩ := inside
  have moved : (payload (7 * before) byte).toNat = 2 ^ (7 * before) * group byte := by
    rw [payload, UInt64.toNat_shiftLeft, toNat_shift shift, Nat.mod_eq_of_lt shift, bits,
      Nat.shiftLeft_eq, Nat.mod_eq_of_lt room, Nat.mul_comm]
  rw [UInt64.toNat_or, moved, power, Nat.or_comm,
    ← Nat.two_pow_add_eq_or_of_lt (power ▸ small), Nat.add_comm]

/-! ### The decoder -/

theorem finishes_nil_iff {before : Nat} {last : UInt8} :
    Finishes before [] last ↔ overflows (7 * before) last = false ∧ isLast last = true := by
  rw [overflows_eq_false_iff]
  constructor
  · intro h
    have fits : before + 1 ≤ maxBytes := h.fits
    exact ⟨(Nat.lt_or_eq_of_le fits).imp_right fun tenth => ⟨tenth, h.top tenth⟩, h.marked⟩
  · rintro ⟨room, mark⟩
    constructor
    · simp
    · exact mark
    · show before + 1 ≤ maxBytes
      omega
    · intro tenth
      change before + 1 = maxBytes at tenth
      rcases room with few | ⟨-, top⟩
      · omega
      · exact top

theorem finishes_cons_iff {before : Nat} {byte : UInt8} {inner : List UInt8} {last : UInt8} :
    Finishes before (byte :: inner) last
      ↔ overflows (7 * before) byte = false ∧ isLast byte = false
        ∧ Finishes (before + 1) inner last := by
  have length : before + (byte :: inner).length + 1 = before + 1 + inner.length + 1 := by
    simp only [List.length_cons]
    omega
  constructor
  · intro h
    have fits := h.fits
    have top := h.top
    rw [length] at fits top
    have few : overflows (7 * before) byte = false :=
      overflows_eq_false_iff.mpr (.inl (by omega))
    exact ⟨few, h.unmarked byte List.mem_cons_self,
      fun b member => h.unmarked b (List.mem_cons_of_mem _ member), h.marked, fits, top⟩
  · rintro ⟨-, mark, h⟩
    constructor
    · intro b member
      rcases List.mem_cons.mp member with rfl | member
      · exact mark
      · exact h.unmarked b member
    · exact h.marked
    · rw [length]
      exact h.fits
    · rw [length]
      exact h.top

theorem exists_split_cons {P : List UInt8 → UInt8 → Prop} {byte : UInt8} {bytes : List UInt8} :
    (∃ inner last rest, byte :: bytes = inner ++ last :: rest ∧ P inner last)
      ↔ P [] byte ∨ ∃ inner last rest, bytes = inner ++ last :: rest ∧ P (byte :: inner) last := by
  constructor
  · rintro ⟨inner, last, rest, split, h⟩
    cases inner with
    | nil =>
      obtain ⟨rfl, rfl⟩ := List.cons.inj split
      exact .inl h
    | cons first inner =>
      obtain ⟨rfl, rfl⟩ := List.cons.inj split
      exact .inr ⟨inner, last, rest, rfl, h⟩
  · rintro (h | ⟨inner, last, rest, rfl, h⟩)
    · exact ⟨[], byte, bytes, rfl, h⟩
    · exact ⟨byte :: inner, last, rest, rfl, h⟩

/-- A decoder in the middle of a word accepts exactly the bytes that finish it, and adds what they
stand for to the groups it holds. -/
theorem decodeFrom_eq_ok_iff {bytes : List UInt8} {before used total : Nat} {word result : UInt64}
    (small : word.toNat < 128 ^ before) :
    decodeFrom bytes (7 * before) word used = .ok (result, total)
      ↔ ∃ inner last rest, bytes = inner ++ last :: rest ∧ Finishes before inner last
        ∧ result.toNat = word.toNat + 128 ^ before * value (inner ++ [last])
        ∧ total = used + inner.length + 1 := by
  induction bytes generalizing before word used with
  | nil => simp [decodeFrom]
  | cons byte bytes ih =>
    rw [decodeFrom, exists_split_cons]
    simp only [finishes_nil_iff, finishes_cons_iff]
    cases room : overflows (7 * before) byte with
    | true => simp
    | false =>
      have added := toNat_or_payload small room
      cases mark : isLast byte with
      | true =>
        -- the byte ends the word, so nothing is inside it
        simp only [List.nil_append, value_singleton, ← added, UInt64.toNat_inj]
        simp [eq_comm]
      | false =>
        have more : (word ||| payload (7 * before) byte).toNat < 128 ^ (before + 1) := by
          have bits := group_lt byte
          rw [added, pow_succ]
          nlinarith
        have shift : 7 * before + 7 = 7 * (before + 1) := by omega
        have sum : ∀ back : List UInt8,
            (word ||| payload (7 * before) byte).toNat + 128 ^ (before + 1) * value back
              = word.toNat + 128 ^ before * value (byte :: back) := by
          intro back
          rw [added, value_cons, pow_succ]
          ring
        have length : ∀ inner : List UInt8,
            used + 1 + inner.length + 1 = used + (byte :: inner).length + 1 := by
          intro inner
          rw [List.length_cons]
          omega
        simp only [Bool.false_eq_true, if_false, shift, ih more, sum, length, List.cons_append,
          true_and, false_and, false_or]

/-- What is accepted is a spelled word, and the word is its value. -/
theorem decode_eq_ok_iff {bytes : List UInt8} {word : UInt64} {used : Nat} :
    decode bytes = .ok (word, used)
      ↔ used ≤ bytes.length ∧ Spelled (bytes.take used) ∧ word.toNat = value (bytes.take used) := by
  have zero : (0 : UInt64).toNat < 128 ^ 0 := by decide
  have whole : decodeFrom bytes (7 * 0) 0 0 = .ok (word, used) ↔ _ := decodeFrom_eq_ok_iff zero
  rw [decode, whole]
  constructor
  · rintro ⟨inner, last, rest, rfl, finishes, sum, rfl⟩
    have part : (inner ++ last :: rest).take (0 + inner.length + 1) = inner ++ [last] := by
      simp [List.take_append]
    rw [part]
    refine ⟨?_, ⟨inner, last, rfl, finishes⟩, ?_⟩
    · simp only [List.length_append, List.length_cons]
      omega
    · simpa using sum
  · rintro ⟨inside, ⟨inner, last, part, finishes⟩, sum⟩
    have split : bytes = inner ++ last :: bytes.drop used := by
      conv => lhs; rw [← List.take_append_drop used bytes, part]
      simp
    have length := congrArg List.length part
    simp only [List.length_take, List.length_append, List.length_singleton] at length
    refine ⟨inner, last, bytes.drop used, split, finishes, ?_, by omega⟩
    rw [sum, part]
    simp

/-! ### The shortest spelling -/

theorem value_lt (part : List UInt8) : value part < 128 ^ part.length := by
  have digits : ∀ digit ∈ part.map group, digit < 128 := lt_of_mem_groups
  have bound := Nat.ofDigits_lt_base_pow_length (by decide) digits
  rwa [List.length_map] at bound

/-- What is spelled fits a word. -/
theorem Spelled.value_lt {part : List UInt8} (h : Spelled part) : value part < 2 ^ 64 := by
  obtain ⟨inner, last, rfl, finishes⟩ := h
  have low := VarLong.value_lt inner
  have high := group_lt last
  have room := finishes.fits
  rw [value_append, value_singleton]
  by_cases tenth : 0 + inner.length + 1 = maxBytes
  · have bit := group_le_one (finishes.top tenth)
    have nine : inner.length = 9 := by simp only [maxBytes] at tenth; omega
    rw [nine] at low ⊢
    omega
  · have few : inner.length ≤ 8 := by simp only [maxBytes] at room tenth; omega
    have power : 128 ^ inner.length ≤ 128 ^ 8 := Nat.pow_le_pow_right (by decide) few
    nlinarith

theorem bitLength_le_iff {word : UInt64} {bits : Nat} :
    bitLength word ≤ bits ↔ word.toNat < 2 ^ bits := by
  constructor
  · intro few
    exact Nat.lt_of_lt_of_le (lt_two_pow_bitLength word) (Nat.pow_le_pow_right (by decide) few)
  · intro small
    rw [bitLength]
    split
    · exact Nat.zero_le bits
    · next some =>
      have positive : word.toNat ≠ 0 := fun zero => some (UInt64.toNat_inj.mp zero)
      exact (Nat.log2_lt positive).mpr small

/-- The size of a word is the least number of groups that hold it. -/
theorem size_le_iff {word : UInt64} {groups : Nat} (some : 1 ≤ groups) :
    size word ≤ groups ↔ word.toNat < 128 ^ groups := by
  have length : size word ≤ groups ↔ bitLength word ≤ 7 * groups := by
    rw [size]
    omega
  rw [length, bitLength_le_iff, pow_groups]

theorem size_pos (word : UInt64) : 1 ≤ size word := Nat.le_max_right _ _

/-- No spelling of a word is shorter than its size. -/
theorem size_le_length {part : List UInt8} {word : UInt64} (some : part ≠ [])
    (spells : word.toNat = value part) : size word ≤ part.length := by
  have small := value_lt part
  rw [← spells] at small
  exact (size_le_iff (List.length_pos_of_ne_nil some)).mpr small

/-- A spelling is as short as can be unless it ends in a group of zeros. -/
theorem length_eq_size_iff {inner : List UInt8} {last : UInt8} {word : UInt64}
    (spells : word.toNat = value (inner ++ [last])) :
    (inner ++ [last]).length = size word ↔ inner = [] ∨ group last ≠ 0 := by
  have sum : value (inner ++ [last]) = value inner + 128 ^ inner.length * group last := by
    rw [value_append, value_singleton]
  have most := size_le_length (by simp) spells
  have least := size_pos word
  have length : (inner ++ [last]).length = inner.length + 1 := by simp
  rw [length] at most ⊢
  by_cases alone : inner = []
  · simp only [alone, true_or, iff_true, List.length_nil] at most ⊢
    omega
  · have some : 1 ≤ inner.length := List.length_pos_of_ne_nil alone
    have fewer : size word ≤ inner.length ↔ group last = 0 := by
      rw [size_le_iff some, spells, sum]
      constructor
      · intro small
        by_contra nonzero
        have one : 1 ≤ group last := Nat.one_le_iff_ne_zero.mpr nonzero
        nlinarith
      · intro zero
        rw [zero, Nat.mul_zero, Nat.add_zero]
        exact value_lt inner
    simp only [alone, false_or]
    omega

/-- Spellings of one length that stand for the same word are the same bytes. -/
theorem spelled_unique {p q : List UInt8} (hp : Spelled p) (hq : Spelled q)
    (length : p.length = q.length) (same : value p = value q) : p = q := by
  have groups : p.map group = q.map group :=
    Nat.ofDigits_inj_of_len_eq (by decide) (by simpa using length) lt_of_mem_groups
      lt_of_mem_groups same
  obtain ⟨inner, last, rfl, h⟩ := hp
  obtain ⟨inner', last', rfl, h'⟩ := hq
  simp only [List.map_append, List.map_cons, List.map_nil] at groups
  obtain ⟨front, back⟩ := List.append_inj' groups rfl
  have ends : last = last' :=
    eq_of_group_eq (List.cons.inj back).1 (h.marked.trans h'.marked.symm)
  have inside : inner = inner' := by
    have sizes : inner.length = inner'.length := by simpa using congrArg List.length front
    apply List.ext_getElem sizes
    intro i hi hi'
    apply eq_of_group_eq
    · have each := congrArg (·[i]?) front
      simpa [hi, hi'] using each
    · rw [h.unmarked _ (List.getElem_mem hi), h'.unmarked _ (List.getElem_mem hi')]
  rw [inside, ends]

theorem length_groups_le_of_lt (more : Nat) {word : UInt64} {count : Nat} (some : 1 ≤ count)
    (small : word.toNat < 128 ^ count) : (groups more word).length ≤ count := by
  induction more generalizing word count with
  | zero => exact some
  | succ more ih =>
    rw [groups]
    split
    · exact some
    · next wide =>
      have wide : 128 ≤ word.toNat := Nat.le_of_not_lt wide
      obtain ⟨fewer, rfl⟩ := Nat.exists_eq_add_of_le' some
      have behind : 1 ≤ fewer := by
        by_contra none
        have zero : fewer = 0 := by omega
        rw [zero] at small
        omega
      have rest : (word >>> 7).toNat < 128 ^ fewer := by
        rw [shift_seven_bits]
        rw [pow_succ] at small
        omega
      have length := ih behind rest
      rw [List.length_cons]
      omega

/-- What is written is a spelling of the word. -/
theorem spelled_encode (word : UInt64) : Spelled (encode word) ∧ word.toNat = value (encode word) := by
  have read := decode_encode_append word []
  rw [List.append_nil] at read
  have exact' := (decode_eq_ok_iff.mp read).2
  rwa [List.take_length] at exact'

/-- The size is the number of bytes that are written. -/
theorem length_encode (word : UInt64) : (encode word).length = size word := by
  obtain ⟨spelled, spells⟩ := spelled_encode word
  have least := size_le_length spelled.ne_nil spells
  have most : (encode word).length ≤ size word :=
    length_groups_le_of_lt _ (size_pos word) ((size_le_iff (size_pos word)).mp (Nat.le_refl _))
  omega

/-- A spelling is the one that is written unless it ends in a group of zeros behind others. -/
theorem encode_eq_iff {part : List UInt8} {word : UInt64} (spelled : Spelled part)
    (spells : word.toNat = value part) :
    encode word = part
      ↔ part.length = 1 ∨ ∃ last, part.getLast? = some last ∧ last &&& 0x7f ≠ 0 := by
  obtain ⟨written, means⟩ := spelled_encode word
  have same : encode word = part ↔ part.length = size word := by
    constructor
    · intro h
      rw [← h, length_encode]
    · intro length
      rw [← length_encode] at length
      exact spelled_unique written spelled length.symm (means.symm.trans spells)
  obtain ⟨inner, last, rfl, -⟩ := spelled
  rw [same, length_eq_size_iff spells]
  simp [group_eq_zero_iff]

theorem append_eq (buffer : List UInt8) (word : UInt64) :
    append buffer word = ⟨buffer ++ encode word, size word⟩ := by
  rw [append, ← length_encode]
  simp

end VarLong

/-! ### Words at a place -/

open VarLong (Spelled value)

theorem readVarLong_cases (bytes : List UInt8) (offset : Nat) :
    (∃ word used, readVarLong bytes offset = .ok (word, used))
      ∨ ∃ failure : VarLong.Failure, readVarLong bytes offset = .error (failure.toFault offset) := by
  rw [readVarLong]
  cases VarLong.decode (bytes.drop offset) with
  | ok read => exact .inl ⟨read.1, read.2, rfl⟩
  | error failure => exact .inr ⟨failure, rfl⟩

/-- A word is read where one is spelled, and from nothing else. -/
theorem readVarLong_eq_ok_iff {bytes : List UInt8} {offset used : Nat} {word : UInt64} :
    readVarLong bytes offset = .ok (word, used)
      ↔ offset + used ≤ bytes.length ∧ Spelled ((bytes.drop offset).take used)
        ∧ word.toNat = value ((bytes.drop offset).take used) := by
  have front : readVarLong bytes offset = .ok (word, used)
      ↔ VarLong.decode (bytes.drop offset) = .ok (word, used) := by
    rw [readVarLong]
    cases VarLong.decode (bytes.drop offset) <;> simp
  rw [front, VarLong.decode_eq_ok_iff]
  constructor
  · rintro ⟨inside, spelled, sum⟩
    have some := List.length_pos_of_ne_nil spelled.ne_nil
    simp only [List.length_take, List.length_drop] at some inside
    exact ⟨by omega, spelled, sum⟩
  · rintro ⟨inside, spelled, sum⟩
    rw [List.length_drop]
    exact ⟨by omega, spelled, sum⟩

/-- Where a word is spelled, one is read. -/
theorem exists_word_of_spelled {bytes : List UInt8} {offset used : Nat}
    (inside : offset + used ≤ bytes.length) (spelled : Spelled ((bytes.drop offset).take used)) :
    ∃ word, readVarLong bytes offset = .ok (word, used) := by
  have fits : (UInt64.ofNat (value ((bytes.drop offset).take used))).toNat
      = value ((bytes.drop offset).take used) :=
    UInt64.toNat_ofNat_of_lt' spelled.value_lt
  exact ⟨_, readVarLong_eq_ok_iff.mpr ⟨inside, spelled, fits⟩⟩

/-- Reading a var-long accepts the bytes that spell a word, of any length up to ten, and refuses all
others.  Writing spells a word in as few bytes as any accepted spelling has, and it writes again what
was read exactly if that was a single byte or did not end in a group of zeros. -/
theorem readVarLong_exact (bytes : List UInt8) (offset : Nat) :
    (∀ word used, readVarLong bytes offset = .ok (word, used)
        ↔ offset + used ≤ bytes.length ∧ Spelled ((bytes.drop offset).take used)
          ∧ word.toNat = value ((bytes.drop offset).take used))
      ∧ ((∃ failure : VarLong.Failure,
            readVarLong bytes offset = .error (failure.toFault offset))
          ↔ ∀ used, offset + used ≤ bytes.length → ¬Spelled ((bytes.drop offset).take used))
      ∧ (∀ word used, readVarLong bytes offset = .ok (word, used) →
          VarLong.size word ≤ used
            ∧ (VarLong.encode word = (bytes.drop offset).take used
              ↔ used = 1 ∨ ∃ last, ((bytes.drop offset).take used).getLast? = some last
                  ∧ last &&& 0x7f ≠ 0))
      ∧ ∀ before word after,
          VarLong.append before word = ⟨before ++ VarLong.encode word, VarLong.size word⟩
            ∧ readVarLong ((VarLong.append before word).buffer ++ after) before.length
              = .ok (word, VarLong.size word) := by
  refine ⟨fun _ _ => readVarLong_eq_ok_iff, ?_, ?_, ?_⟩
  · constructor
    · rintro ⟨failure, refused⟩ used inside spelled
      obtain ⟨word, accepted⟩ := exists_word_of_spelled inside spelled
      rw [refused] at accepted
      cases accepted
    · intro unspelled
      rcases readVarLong_cases bytes offset with ⟨word, used, accepted⟩ | refused
      · obtain ⟨inside, spelled, -⟩ := readVarLong_eq_ok_iff.mp accepted
        exact absurd spelled (unspelled used inside)
      · exact refused
  · intro word used accepted
    obtain ⟨inside, spelled, sum⟩ := readVarLong_eq_ok_iff.mp accepted
    have length : ((bytes.drop offset).take used).length = used := by
      simp only [List.length_take, List.length_drop]
      omega
    have shortest := VarLong.size_le_length spelled.ne_nil sum
    have again := VarLong.encode_eq_iff spelled sum
    rw [length] at shortest again
    exact ⟨shortest, again⟩
  · intro before word after
    rw [VarLong.append_eq]
    refine ⟨rfl, ?_⟩
    show readVarLong (before ++ VarLong.encode word ++ after) before.length = _
    rw [readVarLong, List.append_assoc, List.drop_left, VarLong.decode_encode_append,
      VarLong.length_encode]

end NeighborGraph
