import NeighborGraph.Proofs.Codec.Bits
import NeighborGraph.Proofs.Codec.DeltaStream
import NeighborGraph.Proofs.Codec.Words

/-!
# Packed lists are read back block by block

The encoder works on a whole list, the decoder on one block at a time.  What joins them is the list
of gaps that are still to come: `widths` and `body` are the width bytes and the blocks that a list of
gaps is written as, and both lose one block when the gaps lose their first 64 (`widths_step`,
`body_step`).  The last block is a step like any other.

`BlockDecoder.Stands` is the invariant: a decoder has some targets left, its block number points at
their width bytes, its offset at their blocks, and its running total is the target before them.
`BlockDecoder.next_of_stands` is the step: one call yields the next 64 of these targets, with their
properties when it is given a buffer, and the decoder stands before the others.
-/

namespace NeighborGraph

namespace Packed

/-! ### Gaps -/

theorem length_gapsFrom (previous : UInt64) (targets : List UInt64) :
    (gapsFrom previous targets).length = targets.length := by
  induction targets generalizing previous with
  | nil => rfl
  | cons t targets ih => rw [gapsFrom, List.length_cons, List.length_cons, ih]

theorem take_gapsFrom (previous : UInt64) (targets : List UInt64) (count : Nat) :
    (gapsFrom previous targets).take count = gapsFrom previous (targets.take count) := by
  induction targets generalizing previous count with
  | nil => cases count <;> rfl
  | cons t targets ih =>
    cases count with
    | zero => rfl
    | succ count => rw [gapsFrom, List.take_succ_cons, List.take_succ_cons, gapsFrom, ih]

theorem drop_gapsFrom (previous : UInt64) (targets : List UInt64) (count : Nat) :
    (gapsFrom previous targets).drop count
      = gapsFrom (lastFrom previous (targets.take count)) (targets.drop count) := by
  induction targets generalizing previous count with
  | nil => cases count <;> rfl
  | cons t targets ih =>
    cases count with
    | zero => rfl
    | succ count =>
      rw [gapsFrom, List.drop_succ_cons, List.take_succ_cons, List.drop_succ_cons, lastFrom_cons, ih]

/-- The totals of the gaps are the targets again. -/
theorem totals_gapsFrom (previous : UInt64) (targets : List UInt64) :
    totals previous (gapsFrom previous targets) = targets := by
  induction targets generalizing previous with
  | nil => rfl
  | cons t targets ih =>
    have back : previous + (t - previous) = t := by
      rw [UInt64.add_comm, UInt64.sub_add_cancel]
    rw [gapsFrom, totals, back, ih]

/-! ### One block after the other -/

/-- The width bytes of a list of gaps. -/
def widths (tail : Tail) (gaps : List UInt64) : List UInt8 :=
  let full := gaps.length / blockSize
  (cut full gaps).map width ++ tailWidth tail (gaps.drop (full * blockSize))

/-- The blocks of a list of gaps, each followed by its properties. -/
def body (tail : Tail) (gaps : List UInt64) (properties : List Binary64) : List UInt8 :=
  let full := gaps.length / blockSize
  blockBytes (cut full gaps) (cut full properties)
    ++ tailBytes tail (gaps.drop (full * blockSize))
    ++ propertyBytes (properties.drop (full * blockSize))

theorem encode_eq (tail : Tail) (targets : List UInt64) (properties : List Binary64) :
    encode tail targets properties
      = widths tail (gaps targets) ++ body tail (gaps targets) properties := by
  have length : (gaps targets).length = targets.length := length_gapsFrom 0 targets
  simp only [encode, widths, body, length, List.append_assoc]

theorem length_cut {α : Type} (count : Nat) (items : List α) : (cut count items).length = count := by
  induction count generalizing items with
  | zero => rfl
  | succ count ih => rw [cut, List.length_cons, ih]

theorem length_widths (tail : Tail) (gaps : List UInt64) :
    (widths tail gaps).length = headerLength gaps.length tail := by
  have left : (gaps.drop (gaps.length / blockSize * blockSize)).length
      = gaps.length % blockSize := by
    rw [List.length_drop]
    simp only [blockSize]
    omega
  rw [widths, headerLength, List.length_append, List.length_map, length_cut, tailWidth]
  by_cases none : gaps.length % blockSize = 0
  · have empty : gaps.drop (gaps.length / blockSize * blockSize) = [] :=
      List.length_eq_zero_iff.mp (left.trans none)
    simp [empty, none]
  · have some : gaps.drop (gaps.length / blockSize * blockSize) ≠ [] := by
      intro empty
      rw [empty] at left
      exact none left.symm
    have more : gaps.length % blockSize > 0 := by omega
    cases tail <;> simp [some, more, width]

/-- The width byte of one block of gaps, if it has one. -/
def blockWidth (tail : Tail) (gaps : List UInt64) : List UInt8 :=
  if gaps.length < blockSize then tailWidth tail gaps else [width gaps]

/-- One block of gaps. -/
def blockBody (tail : Tail) (gaps : List UInt64) : List UInt8 :=
  if gaps.length < blockSize then tailBytes tail gaps else gapBytes blockSize gaps

theorem tailWidth_of_packed {tail : Tail} {gaps : List UInt64} (some : gaps ≠ [])
    (packed : tail ≠ .varLong) : tailWidth tail gaps = [width gaps] := by
  simp [tailWidth, some, packed]

theorem tailWidth_varLong (gaps : List UInt64) : tailWidth .varLong gaps = [] := by
  simp [tailWidth]

theorem tailBytes_aligned {gaps : List UInt64} (some : gaps ≠ []) :
    tailBytes .aligned gaps = gapBytes blockSize gaps := by
  simp [tailBytes, some]

theorem tailBytes_packed {gaps : List UInt64} (some : gaps ≠ []) :
    tailBytes .packed gaps = gapBytes gaps.length gaps := by
  simp [tailBytes, some]

theorem tailBytes_varLong (gaps : List UInt64) :
    tailBytes .varLong gaps = VarLong.encodeAll gaps := by
  cases gaps <;> rfl

theorem full_of_le {α : Type} {items : List α} (h : blockSize ≤ items.length) :
    items.length / blockSize = (items.drop blockSize).length / blockSize + 1 := by
  rw [List.length_drop]
  simp only [blockSize] at *
  omega

theorem drop_full {α β : Type} {items : List α} (h : blockSize ≤ items.length) (others : List β) :
    others.drop (items.length / blockSize * blockSize)
      = (others.drop blockSize).drop
          ((items.drop blockSize).length / blockSize * blockSize) := by
  rw [full_of_le h, List.drop_drop, Nat.succ_mul, Nat.add_comm]

theorem full_of_lt {α : Type} {items : List α} (h : items.length < blockSize) :
    items.length / blockSize = 0 := Nat.div_eq_of_lt h

theorem widths_step (tail : Tail) (gaps : List UInt64) :
    widths tail gaps
      = blockWidth tail (gaps.take blockSize) ++ widths tail (gaps.drop blockSize) := by
  rcases Nat.lt_or_ge gaps.length blockSize with h | h
  · have all : gaps.take blockSize = gaps := List.take_of_length_le (Nat.le_of_lt h)
    have nothing : gaps.drop blockSize = [] := List.drop_of_length_le (Nat.le_of_lt h)
    rw [all, nothing, blockWidth, if_pos h, widths, full_of_lt h, Nat.zero_mul, List.drop_zero]
    exact (List.append_nil _).symm
  · have block : (gaps.take blockSize).length = blockSize := by
      rw [List.length_take, Nat.min_eq_left h]
    rw [blockWidth, if_neg (by omega), widths, drop_full h, full_of_le h, cut, List.map_cons]
    rfl

theorem body_step (tail : Tail) (gaps : List UInt64) (properties : List Binary64) :
    body tail gaps properties
      = blockBody tail (gaps.take blockSize) ++ (propertyBytes (properties.take blockSize)
          ++ body tail (gaps.drop blockSize) (properties.drop blockSize)) := by
  rcases Nat.lt_or_ge gaps.length blockSize with h | h
  · have all : gaps.take blockSize = gaps := List.take_of_length_le (Nat.le_of_lt h)
    have nothing : gaps.drop blockSize = [] := List.drop_of_length_le (Nat.le_of_lt h)
    have others : body tail [] (properties.drop blockSize)
        = propertyBytes (properties.drop blockSize) := rfl
    rw [all, nothing, others, ← propertyBytes_append, List.take_append_drop, blockBody, if_pos h,
      body, full_of_lt h, Nat.zero_mul, List.drop_zero, List.drop_zero]
    rfl
  · have block : (gaps.take blockSize).length = blockSize := by
      rw [List.length_take, Nat.min_eq_left h]
    rw [blockBody, if_neg (by omega), body, drop_full h gaps, drop_full h properties, full_of_le h,
      cut, cut, blockBytes]
    simp only [body, List.append_assoc]

end Packed

/-! ### One call of the decoder -/

/-- The byte that stands at an offset. -/
theorem Spells.getElem? {bytes : List UInt8} {offset : Nat} {byte : UInt8} {part : List UInt8}
    (h : Spells bytes offset (byte :: part)) : bytes[offset]? = some byte := by
  obtain ⟨before, after, rfl, rfl⟩ := h
  rw [List.getElem?_append_right (Nat.le_refl _), Nat.sub_self]
  rfl

theorem readVarLong_of_spells {bytes : List UInt8} {offset : Nat} {word : UInt64}
    (h : Spells bytes offset (VarLong.encode word)) :
    readVarLong bytes offset = .ok (word, (VarLong.encode word).length) := by
  obtain ⟨after, h⟩ := h.drop
  rw [readVarLong, h, VarLong.decode_encode_append]

/-- Var-longs are read where they stand. -/
theorem readVarLongs_of_spells {bytes : List UInt8} {offset : Nat} {words : List UInt64}
    (h : Spells bytes offset (VarLong.encodeAll words)) :
    readVarLongs bytes words.length offset
      = (.ok words, offset + (VarLong.encodeAll words).length) := by
  induction words generalizing offset with
  | nil => rfl
  | cons word words ih =>
    have split : VarLong.encodeAll (word :: words)
        = VarLong.encode word ++ VarLong.encodeAll words := List.flatMap_cons
    rw [split] at h ⊢
    rw [List.length_cons, readVarLongs, readVarLong_of_spells h.front]
    simp only [ih h.back, Except.map, List.length_append, Nat.add_assoc]

namespace BlockDecoder

open Packed

/-- Before the targets still to come: their width bytes, their blocks and their properties lie
ahead, and the running total is the target before them. -/
structure Stands (d : BlockDecoder) (bytes : List UInt8) (targets : List UInt64)
    (properties : List Binary64) : Prop where
  left : d.remaining = targets.length
  header : Spells bytes d.block (widths d.tail (gapsFrom d.running targets))
  content : Spells bytes d.offset (body d.tail (gapsFrom d.running targets) properties)
  paired : properties.length = if d.withProperties then targets.length else 0

theorem paired_take {withProperties : Bool} {targets : List UInt64} {properties : List Binary64}
    (h : properties.length = if withProperties then targets.length else 0) :
    (properties.take blockSize).length
      = if withProperties then (targets.take blockSize).length else 0 := by
  cases withProperties <;> simp_all

theorem paired_drop {withProperties : Bool} {targets : List UInt64} {properties : List Binary64}
    (h : properties.length = if withProperties then targets.length else 0) :
    (properties.drop blockSize).length
      = if withProperties then (targets.drop blockSize).length else 0 := by
  cases withProperties <;> simp_all

/-- A bit-packed block is cut into the gaps it was packed from. -/
theorem readBlock_of_spells {d : BlockDecoder} {bytes : List UInt8} {gaps : List UInt64}
    {slots : Nat} (room : gaps.length ≤ slots)
    (size : slots = if gaps.length < blockSize ∧ d.tail = .packed then gaps.length else blockSize)
    (header : Spells bytes d.block [width gaps])
    (content : Spells bytes d.offset (gapBytes slots gaps)) :
    d.readBlock bytes gaps.length
      = (.ok gaps, { d with
          offset := d.offset + (gapBytes slots gaps).length, block := d.block + 1 }) := by
  have wide := Bits.widthOf_le gaps
  have bits : (width gaps).toNat = Bits.widthOf gaps := by
    rw [width, UInt8.toNat_ofNat']
    exact Nat.mod_eq_of_lt (by omega)
  have whole := content.slice?
  rw [gapBytes, Bits.length_block] at whole
  have values : Bits.unpack (Bits.block (Bits.widthOf gaps) slots gaps) (Bits.widthOf gaps)
      gaps.length = .ok gaps :=
    Bits.unpack_block wide (fun v hv => Bits.lt_two_pow_widthOf hv) room
  rw [readBlock, header.getElem?]
  simp only [bits, if_neg (Nat.not_lt.mpr wide), ← size, whole, values, gapBytes,
    Bits.length_block]

/-- The decoder behind a block of gaps. -/
def pastGaps (d : BlockDecoder) (gaps : List UInt64) : BlockDecoder :=
  { d with
    offset := d.offset + (blockBody d.tail gaps).length
    block := d.block + (blockWidth d.tail gaps).length }

/-- The next block of gaps is read, in whichever way it was written. -/
theorem readGaps_of_spells {d : BlockDecoder} {bytes : List UInt8} {gaps : List UInt64}
    (some : gaps ≠ []) (most : gaps.length ≤ blockSize)
    (header : Spells bytes d.block (blockWidth d.tail gaps))
    (content : Spells bytes d.offset (blockBody d.tail gaps)) :
    d.readGaps bytes gaps.length = (.ok gaps, d.pastGaps gaps) := by
  obtain ⟨degree, tail, withProperties, block, offset, running, decoded⟩ := d
  dsimp only [pastGaps] at header content ⊢
  rcases Nat.lt_or_ge gaps.length blockSize with part | full
  · rw [blockWidth, if_pos part] at header
    rw [blockBody, if_pos part] at content
    rw [readGaps, blockWidth, if_pos part, blockBody, if_pos part]
    cases tail with
    | aligned =>
      rw [tailWidth_of_packed some (by decide)] at header ⊢
      rw [tailBytes_aligned some] at content ⊢
      rw [if_neg (by rintro ⟨-, h⟩; cases h), readBlock_of_spells most _ header content]
      · rfl
      · rw [if_neg (by rintro ⟨-, h⟩; cases h)]
    | packed =>
      rw [tailWidth_of_packed some (by decide)] at header ⊢
      rw [tailBytes_packed some] at content ⊢
      rw [if_neg (by rintro ⟨-, h⟩; cases h),
        readBlock_of_spells (Nat.le_refl _) _ header content]
      · rfl
      · rw [if_pos ⟨part, rfl⟩]
    | varLong =>
      rw [tailBytes_varLong] at content ⊢
      rw [if_pos ⟨part, rfl⟩, readVarLongs_of_spells content, tailWidth_varLong]
      rfl
  · rw [blockWidth, if_neg (by omega)] at header
    rw [blockBody, if_neg (by omega)] at content
    rw [readGaps, if_neg (by omega), blockWidth, if_neg (by omega), blockBody, if_neg (by omega),
      readBlock_of_spells most _ header content]
    · rfl
    · rw [if_neg (by omega)]

/-- The decoder behind a block of targets and their properties. -/
def pastBlock (d : BlockDecoder) (targets : List UInt64) (properties : List Binary64) :
    BlockDecoder :=
  { d with
    offset := d.offset + (propertyBytes properties).length
    decoded := d.decoded + targets.length }

/-- The properties of the block just passed are read when a buffer asks, and skipped otherwise. -/
theorem readBlockProperties_of_spells {d : BlockDecoder} {bytes : List UInt8}
    {targets : List UInt64} {properties : List Binary64} (buffered : Bool)
    (paired : properties.length = if d.withProperties then targets.length else 0)
    (content : Spells bytes d.offset (propertyBytes properties)) :
    d.readBlockProperties bytes buffered targets
      = (.ok ⟨targets, if buffered then properties else []⟩, d.pastBlock targets properties) := by
  obtain ⟨degree, tail, withProperties, block, offset, running, decoded⟩ := d
  dsimp only [pastBlock] at paired content ⊢
  cases withProperties with
  | false =>
    have none : properties = [] := List.length_eq_zero_iff.mp paired
    subst none
    cases buffered <;> rfl
  | true =>
    rw [if_pos rfl] at paired
    rw [length_propertyBytes, paired]
    cases buffered with
    | false => rfl
    | true =>
      have read := readProperties_of_spells content
      rw [paired] at read
      simp only [readBlockProperties, if_true, read]

/-- The decoder behind the gaps of a block, at the last of its targets. -/
def atTargets (d : BlockDecoder) (targets : List UInt64) : BlockDecoder :=
  { d.pastGaps (gapsFrom d.running targets) with running := lastFrom d.running targets }

/-- One call yields the next block of targets and leaves the decoder before the others. -/
theorem next_of_stands {d : BlockDecoder} {bytes : List UInt8} {targets : List UInt64}
    {properties : List Binary64} (h : d.Stands bytes targets properties) (buffered : Bool) :
    ∃ d', d.next bytes buffered
        = (.ok ⟨targets.take blockSize, if buffered then properties.take blockSize else []⟩, d')
      ∧ d'.Stands bytes (targets.drop blockSize) (properties.drop blockSize) := by
  have count : min d.remaining blockSize = (targets.take blockSize).length := by
    rw [h.left, List.length_take, Nat.min_comm]
  by_cases none : targets = []
  · subst none
    have empty : properties = [] := by
      apply List.length_eq_zero_iff.mp
      rw [h.paired]
      split <;> rfl
    subst empty
    refine ⟨d, ?_, h⟩
    rw [next, count]
    cases buffered <;> rfl
  · have some : targets.take blockSize ≠ [] := by
      cases targets with
      | nil => exact absurd rfl none
      | cons t targets => exact List.cons_ne_nil _ _
    -- the gaps of this block, and of the blocks after it
    have front := take_gapsFrom d.running targets blockSize
    have rest := drop_gapsFrom d.running targets blockSize
    have header := h.header
    have content := h.content
    rw [widths_step, front, rest] at header
    rw [body_step, front, rest] at content
    have length := length_gapsFrom d.running (targets.take blockSize)
    have some' : gapsFrom d.running (targets.take blockSize) ≠ [] := by
      intro nil
      rw [nil] at length
      exact some (List.length_eq_zero_iff.mp length.symm)
    have most : (gapsFrom d.running (targets.take blockSize)).length ≤ blockSize := by
      rw [length, List.length_take]
      exact Nat.min_le_left _ _
    have gaps := readGaps_of_spells some' most header.front content.front
    rw [length, ← count] at gaps
    have behind : (d.atTargets (targets.take blockSize)).readBlockProperties bytes buffered
          (targets.take blockSize) = _ :=
      readBlockProperties_of_spells buffered (paired_take h.paired) content.back.front
    refine ⟨(d.atTargets (targets.take blockSize)).pastBlock (targets.take blockSize)
      (properties.take blockSize), ?_, ?_⟩
    · rw [next, if_neg (by rw [count]; exact fun h => some (List.length_eq_zero_iff.mp h)), gaps]
      have running : (d.pastGaps (gapsFrom d.running (targets.take blockSize))).running
          = d.running := rfl
      simp only [running, totals_gapsFrom]
      exact behind
    · refine ⟨?_, header.back, content.back.back, paired_drop h.paired⟩
      have left : d.degree - d.decoded = targets.length := h.left
      show d.degree - (d.decoded + (targets.take blockSize).length) = _
      rw [List.length_drop, List.length_take, ← left]
      omega

/-- A new decoder stands before the whole list. -/
theorem stands_start (tail : Tail) (withProperties : Bool) {targets : List UInt64}
    {properties : List Binary64}
    (paired : properties.length = if withProperties then targets.length else 0) :
    (start targets.length tail withProperties).Stands (encode tail targets properties) targets
      properties := by
  have whole := spells_self (encode tail targets properties)
  rw [encode_eq] at whole ⊢
  have content := whole.back
  have length : (gaps targets).length = targets.length := length_gapsFrom 0 targets
  rw [length_widths, length, Nat.zero_add] at content
  exact ⟨rfl, whole.front, content, paired⟩

end BlockDecoder

end NeighborGraph
