import NeighborGraph.Graph.Footprint
import NeighborGraph.Proofs.Codec.Packed

/-!
# How many bytes a list takes

Properties take eight bytes each, wherever a mode puts them (`length_bytesOf`).  What the targets
take depends on the mode: a word each, a var-long each, or blocks of gaps with their widths.

`Footprint.Spans` bounds the bytes of the targets of some lists by the footprint of as many nodes and
relationships.  Footprints count whole blocks by rounding down, so a lower bound for each list does
not add up to one for all of them.  What does add up is that no byte stands for more than 64 targets,
which is why it is part of the bound.  One list keeps within it (`spans_list`), and so do lists
together (`spans_add`).
-/

namespace NeighborGraph

/-! ### Var-longs -/

namespace VarLong

theorem length_groups_pos (more : Nat) (word : UInt64) : 1 ≤ (groups more word).length := by
  cases more with
  | zero => exact Nat.le_refl 1
  | succ more =>
    rw [groups]
    split <;> simp only [List.length_cons, List.length_nil] <;> omega

theorem length_groups_le (more : Nat) (word : UInt64) : (groups more word).length ≤ more + 1 := by
  induction more generalizing word with
  | zero => exact Nat.le_refl 1
  | succ more ih =>
    have rest := ih (word >>> 7)
    rw [groups]
    split <;> simp only [List.length_cons, List.length_nil] <;> omega

/-- A word takes between one and ten bytes. -/
theorem length_encode_bounds (word : UInt64) :
    1 ≤ (encode word).length ∧ (encode word).length ≤ maxBytes :=
  ⟨length_groups_pos _ _, length_groups_le _ _⟩

theorem length_encodeAll_bounds (words : List UInt64) :
    words.length ≤ (encodeAll words).length
      ∧ (encodeAll words).length ≤ words.length * maxBytes := by
  induction words with
  | nil => exact ⟨Nat.le_refl 0, Nat.le_refl 0⟩
  | cons word words ih =>
    have first := length_encode_bounds word
    have split : encodeAll (word :: words) = encode word ++ encodeAll words := List.flatMap_cons
    rw [split]
    simp only [List.length_append, List.length_cons, maxBytes] at *
    omega

end VarLong

theorem DeltaStream.length_encodeFrom_bounds (previous : UInt64) (words : List UInt64) :
    words.length ≤ (encodeFrom previous words).length
      ∧ (encodeFrom previous words).length ≤ words.length * VarLong.maxBytes := by
  induction words generalizing previous with
  | nil => exact ⟨Nat.le_refl 0, Nat.le_refl 0⟩
  | cons word words ih =>
    have first := VarLong.length_encode_bounds (step previous word)
    have rest := ih word
    rw [encodeFrom]
    simp only [List.length_append, List.length_cons, VarLong.maxBytes] at *
    omega

/-! ### Packed lists -/

namespace Packed

/-- A block has at most eight bytes for each of its slots. -/
theorem length_gapBytes_le (slots : Nat) (gaps : List UInt64) :
    (gapBytes slots gaps).length ≤ slots * 8 := by
  have wide := Nat.mul_le_mul_left slots (Bits.widthOf_le gaps)
  rw [gapBytes, Bits.length_block, Bits.byteCount]
  omega

/-- Most bytes that the gaps of a list take, widths apart. -/
def bodyMost (tail : Tail) (degree : Nat) : Nat :=
  match tail with
  | .aligned => align degree * 8
  | .packed => degree * 8
  | .varLong => degree * VarLong.maxBytes

theorem length_tailBytes_le (tail : Tail) {gaps : List UInt64} (short : gaps.length < blockSize) :
    (tailBytes tail gaps).length ≤ bodyMost tail gaps.length := by
  by_cases none : gaps = []
  · rw [none]
    exact Nat.zero_le _
  · have some := List.length_pos_iff.mpr none
    cases tail with
    | aligned =>
      have block := length_gapBytes_le blockSize gaps
      rw [tailBytes_aligned none]
      simp only [bodyMost, align, blockSize] at *
      omega
    | packed =>
      rw [tailBytes_packed none]
      exact length_gapBytes_le _ _
    | varLong =>
      rw [tailBytes_varLong]
      exact (VarLong.length_encodeAll_bounds gaps).2

/-- Full blocks take what their gaps take, and eight bytes for each of their properties. -/
theorem length_blockBytes (count : Nat) (gaps : List UInt64) (properties : List Binary64) :
    (blockBytes (cut count gaps) (cut count properties)).length
      = (blockBytes (cut count gaps) (cut count ([] : List Binary64))).length
        + (properties.take (count * blockSize)).length * 8 := by
  induction count generalizing gaps properties with
  | zero => simp only [cut, blockBytes, Nat.zero_mul, List.take_zero, List.length_nil]
  | succ count ih =>
    have rest := ih (gaps.drop blockSize) (properties.drop blockSize)
    simp only [cut, blockBytes, List.take_nil, List.drop_nil, List.length_append,
      length_propertyBytes, List.length_take, List.length_drop, List.length_nil, rest,
      Nat.succ_mul]
    omega

theorem length_blockBytes_le (count : Nat) (gaps : List UInt64) :
    (blockBytes (cut count gaps) (cut count ([] : List Binary64))).length
      ≤ count * (blockSize * 8) := by
  induction count generalizing gaps with
  | zero => exact Nat.le_refl 0
  | succ count ih =>
    have first := length_gapBytes_le blockSize (gaps.take blockSize)
    have rest := ih (gaps.drop blockSize)
    simp only [cut, blockBytes, List.take_nil, List.drop_nil, List.length_append,
      length_propertyBytes, List.length_nil, Nat.succ_mul] at *
    omega

theorem headerLength_le (degree : Nat) (tail : Tail) :
    headerLength degree tail ≤ degree / blockSize + min 1 degree := by
  rw [headerLength]
  by_cases tailed : degree % blockSize > 0 ∧ tail ≠ .varLong
  · rw [if_pos tailed]
    simp only [blockSize] at *
    omega
  · rw [if_neg tailed]
    omega

/-- A var-long tail has no width. -/
theorem headerLength_varLong (degree : Nat) :
    headerLength degree .varLong = degree / blockSize := by
  rw [headerLength, if_neg fun tailed => tailed.2 rfl, Nat.add_zero]

/-- In the other modes every block has a width. -/
theorem le_headerLength (degree : Nat) {tail : Tail} (packed : tail ≠ .varLong) :
    degree ≤ headerLength degree tail * blockSize := by
  rw [headerLength]
  by_cases full : degree % blockSize > 0
  · rw [if_pos ⟨full, packed⟩]
    simp only [blockSize] at *
    omega
  · rw [if_neg fun tailed => full tailed.1]
    simp only [blockSize] at *
    omega

/-- The gaps that the full blocks leave. -/
def lastGaps (targets : List UInt64) : List UInt64 :=
  (gaps targets).drop (targets.length / blockSize * blockSize)

theorem length_lastGaps (targets : List UInt64) :
    (lastGaps targets).length = targets.length % blockSize := by
  rw [lastGaps, List.length_drop, gaps, length_gapsFrom]
  simp only [blockSize]
  omega

/-- The parts of a list without properties. -/
theorem length_encode_targets (tail : Tail) (targets : List UInt64) :
    (encode tail targets []).length
      = headerLength targets.length tail
        + ((blockBytes (cut (targets.length / blockSize) (gaps targets))
            (cut (targets.length / blockSize) ([] : List Binary64))).length
          + (tailBytes tail (lastGaps targets)).length) := by
  have length : (gaps targets).length = targets.length := length_gapsFrom 0 targets
  rw [encode_eq, List.length_append, length_widths, body, length, lastGaps]
  simp only [List.drop_nil, List.length_append, length_propertyBytes, List.length_nil]
  omega

/-- Properties take eight bytes each between the blocks as well. -/
theorem length_encode_properties (tail : Tail) (targets : List UInt64)
    (properties : List Binary64) :
    (encode tail targets properties).length
      = (encode tail targets []).length + properties.length * 8 := by
  have blocks := length_blockBytes (targets.length / blockSize) (gaps targets) properties
  simp only [encode, List.length_append, length_propertyBytes, List.length_drop,
    List.length_take, List.length_nil] at *
  omega

end Packed

/-! ### Every mode -/

theorem length_bytesOf (mode : Mode) (targets : List UInt64) (properties : List Binary64) :
    (Adjacency.bytesOf mode targets properties).length
      = (Adjacency.bytesOf mode targets []).length + properties.length * 8 := by
  cases mode with
  | plain =>
    simp only [Adjacency.bytesOf, List.length_append, length_propertyBytes, List.length_nil]
    omega
  | varLong =>
    simp only [Adjacency.bytesOf, List.length_append, length_propertyBytes, List.length_nil]
    omega
  | packed tail => exact Packed.length_encode_properties tail targets properties

/-- The range of encoded targets in every mode. -/
theorem targetPart_eq (nodes relationships : Nat) (mode : Mode) :
    Footprint.targetPart nodes relationships mode =
      match mode with
      | .plain => ⟨relationships * 8, relationships * 8⟩
      | .varLong => ⟨relationships, relationships * 10⟩
      | .packed .aligned => ⟨relationships / 64, relationships / 64 + min nodes relationships
          + (relationships + min nodes relationships * 64) * 8⟩
      | .packed .packed =>
        ⟨relationships / 64, relationships / 64 + min nodes relationships + relationships * 8⟩
      | .packed .varLong => ⟨relationships / 64, relationships / 64 + relationships * 10⟩ := by
  have range {low high : Nat} (le : low ≤ high) : Footprint.between low high = ⟨low, high⟩ := by
    rw [Footprint.between]
    exact congrArg _ (Nat.max_eq_left le)
  cases mode with
  | plain => rfl
  | varLong => exact range (show relationships ≤ relationships * 10 by omega)
  | packed tail =>
    cases tail with
    | aligned => exact range (show relationships / 64 ≤ relationships / 64
        + min nodes relationships + (relationships + min nodes relationships * 64) * 8 by omega)
    | packed => exact range (show relationships / 64 ≤ relationships / 64
        + min nodes relationships + relationships * 8 by omega)
    | varLong => exact range (show relationships / 64
        ≤ relationships / 64 + relationships * 10 by omega)

namespace Footprint

theorem contains_iff {a : Footprint} {bytes : Nat} :
    a.contains bytes = true ↔ a.min ≤ bytes ∧ bytes ≤ a.max := by
  rw [contains, Bool.and_eq_true, decide_eq_true_eq, decide_eq_true_eq]

theorem contains_of (bytes : Nat) : (of bytes).contains bytes = true :=
  contains_iff.mpr ⟨Nat.le_refl _, Nat.le_refl _⟩

theorem contains_add {a b : Footprint} {bytes more : Nat} (first : a.contains bytes = true)
    (second : b.contains more = true) : (a.add b).contains (bytes + more) = true := by
  rw [contains_iff] at *
  simp only [add]
  omega

/-- Some lists, one for each of `nodes` nodes, hold `relationships` targets in `bytes` bytes, which
are in the range of their footprint; and no byte stands for more than a block of targets. -/
structure Spans (mode : Mode) (nodes relationships bytes : Nat) : Prop where
  contained : (targetPart nodes relationships mode).contains bytes = true
  filled : relationships ≤ bytes * blockSize

theorem spans_nil (mode : Mode) : Spans mode 0 0 0 := by
  refine ⟨?_, Nat.le_refl _⟩
  rw [contains_iff, targetPart_eq]
  cases mode with
  | plain => exact ⟨Nat.le_refl _, Nat.le_refl _⟩
  | varLong => exact ⟨Nat.le_refl _, Nat.le_refl _⟩
  | packed tail => cases tail <;> exact ⟨Nat.le_refl _, Nat.zero_le _⟩

/-- One more list keeps within the footprint of one more node. -/
theorem spans_add {mode : Mode} {nodes relationships bytes degree more : Nat}
    (lists : Spans mode nodes relationships bytes) (list : Spans mode 1 degree more) :
    Spans mode (nodes + 1) (relationships + degree) (bytes + more) := by
  obtain ⟨contained, filled⟩ := lists
  obtain ⟨contained', filled'⟩ := list
  rw [contains_iff, targetPart_eq] at contained contained'
  simp only [blockSize] at filled filled'
  refine ⟨?_, by simp only [blockSize]; omega⟩
  rw [contains_iff, targetPart_eq]
  cases mode with
  | plain =>
    simp only at *
    omega
  | varLong =>
    simp only at *
    omega
  | packed tail =>
    cases tail <;> simp only at * <;> omega

/-- No byte of a packed list stands for more than a block of targets: a block has a width, and gaps
without a width take a byte each. -/
theorem filled_packed (tail : Tail) (targets : List UInt64) :
    targets.length ≤ (Packed.encode tail targets []).length * blockSize := by
  have parts := Packed.length_encode_targets tail targets
  by_cases packed : tail = .varLong
  · subst packed
    have widths := Packed.headerLength_varLong targets.length
    have least := (VarLong.length_encodeAll_bounds (Packed.lastGaps targets)).1
    rw [← Packed.tailBytes_varLong, Packed.length_lastGaps] at least
    simp only [blockSize] at *
    omega
  · have widths := Packed.le_headerLength targets.length packed
    simp only [blockSize] at *
    omega

/-- A packed list keeps within the footprint of one node. -/
theorem spans_packed (tail : Tail) (targets : List UInt64) :
    Spans (.packed tail) 1 targets.length (Packed.encode tail targets []).length := by
  have filled := filled_packed tail targets
  refine ⟨?_, filled⟩
  have parts := Packed.length_encode_targets tail targets
  have header := Packed.headerLength_le targets.length tail
  have blocks := Packed.length_blockBytes_le (targets.length / blockSize) (Packed.gaps targets)
  have last := Packed.length_lastGaps targets
  have short : (Packed.lastGaps targets).length < blockSize := last ▸ Nat.mod_lt _ (by decide)
  have most := Packed.length_tailBytes_le tail short
  rw [contains_iff, targetPart_eq]
  cases tail with
  | aligned =>
    simp only [Packed.bodyMost, Packed.align, blockSize, last] at *
    omega
  | packed =>
    simp only [Packed.bodyMost, blockSize, last] at *
    omega
  | varLong =>
    have widths := Packed.headerLength_varLong targets.length
    simp only [Packed.bodyMost, VarLong.maxBytes, blockSize, last] at *
    omega

/-- One list keeps within the footprint of one node. -/
theorem spans_list (mode : Mode) (targets : List UInt64) :
    Spans mode 1 targets.length (Adjacency.bytesOf mode targets []).length := by
  cases mode with
  | plain =>
    have length : (Adjacency.bytesOf .plain targets []).length = targets.length * 8 := by
      simp only [Adjacency.bytesOf, List.length_append, length_wordBytes, length_propertyBytes,
        List.length_nil, Nat.zero_mul, Nat.add_zero]
    rw [length]
    refine ⟨?_, by simp only [blockSize]; omega⟩
    rw [contains_iff, targetPart_eq]
    exact ⟨Nat.le_refl _, Nat.le_refl _⟩
  | varLong =>
    have bounds := DeltaStream.length_encodeFrom_bounds 0 targets
    have length : (Adjacency.bytesOf .varLong targets []).length
        = (DeltaStream.encodeFrom 0 targets).length := by
      simp only [Adjacency.bytesOf, DeltaStream.encode, List.length_append, length_propertyBytes,
        List.length_nil, Nat.zero_mul, Nat.add_zero]
    rw [length]
    refine ⟨?_, by simp only [blockSize]; omega⟩
    rw [contains_iff, targetPart_eq]
    exact bounds
  | packed tail => exact spans_packed tail targets

end Footprint

end NeighborGraph
