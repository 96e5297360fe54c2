import Mathlib.Data.List.Permutation
import NeighborGraph.Proofs.Codec.Aggregation
import NeighborGraph.Proofs.Codec.Packed

/-!
# Adjacency lists are read back

Whatever is encoded is decoded again, in every mode, with and without properties.

`Decoder.Stands` says where a decoder is in a list: which targets, and which properties, it has still
to bring.  One call brings the next 64 of them (`Decoder.next_of_stands`); the modes differ in this
step only.  `Decoder.Yields` is the loop around it, calls until one of them brings nothing, and by
induction on what is left the loop brings all of it (`Decoder.yields_of_stands`).
-/

namespace NeighborGraph

namespace Decoder

/-- The properties of the targets still to come lie in one piece at `offset`, if there are any. -/
structure Column (bytes : List UInt8) (withProperties : Bool) (offset : Nat)
    (targets : List UInt64) (properties : List Binary64) : Prop where
  paired : properties.length = if withProperties then targets.length else 0
  content : withProperties = true → Spells bytes offset (Packed.propertyBytes properties)

/-- Before the targets still to come, and their properties if the list has any. -/
inductive Stands (bytes : List UInt8) :
    Decoder → (targets : List UInt64) → (properties : List Binary64) → Prop
  | plain {degree decoded : Nat} {withProperties : Bool} {targets : List UInt64}
      {properties : List Binary64}
      (left : degree - decoded = targets.length)
      (content : Spells bytes (decoded * 8) (Adjacency.wordBytes targets))
      (column : Column bytes withProperties (degree * 8 + decoded * 8) targets properties) :
      Stands bytes (.plain degree decoded withProperties) targets properties
  | varLong {degree decoded streamLength : Nat} {position : DeltaStream.Position}
      {withProperties : Bool} {targets : List UInt64} {properties : List Binary64}
      (left : degree - decoded = targets.length)
      (inside : streamLength ≤ bytes.length)
      (content : (bytes.take streamLength).drop position.offset
        = DeltaStream.encodeFrom position.running targets)
      (column : Column bytes withProperties (streamLength + decoded * 8) targets properties) :
      Stands bytes (.varLong degree decoded streamLength position withProperties) targets
        properties
  | packed {blocks : BlockDecoder} {targets : List UInt64} {properties : List Binary64}
      (ahead : blocks.Stands bytes targets properties) :
      Stands bytes (.packed blocks) targets properties

theorem Stands.remaining {bytes : List UInt8} {d : Decoder} {targets : List UInt64}
    {properties : List Binary64} (h : Stands bytes d targets properties) :
    d.remaining = targets.length := by
  cases h with
  | plain left _ _ => exact left
  | varLong left _ _ _ => exact left
  | packed ahead => exact ahead.left

theorem Stands.paired {bytes : List UInt8} {d : Decoder} {targets : List UInt64}
    {properties : List Binary64} (h : Stands bytes d targets properties) :
    properties.length = targets.length ∨ properties = [] := by
  have one (withProperties : Bool)
      (paired : properties.length = if withProperties then targets.length else 0) :
      properties.length = targets.length ∨ properties = [] := by
    cases withProperties with
    | false => exact .inr (List.length_eq_zero_iff.mp paired)
    | true => exact .inl paired
  cases h with
  | plain _ _ column => exact one _ column.paired
  | varLong _ _ _ column => exact one _ column.paired
  | packed ahead => exact one _ ahead.paired

/-! ### One chunk -/

theorem length_take_block {α : Type} {items : List α} {left : Nat} (h : left = items.length) :
    min left blockSize = (items.take blockSize).length := by
  rw [h, List.length_take, Nat.min_comm]

theorem left_drop_block {α : Type} {items : List α} {degree decoded : Nat}
    (h : degree - decoded = items.length) :
    degree - (decoded + (items.take blockSize).length) = (items.drop blockSize).length := by
  rw [List.length_drop, List.length_take]
  omega

/-- The properties of a chunk are read where they stand or skipped, and the others follow. -/
theorem Column.next {bytes : List UInt8} {withProperties : Bool} {offset decoded : Nat}
    {targets : List UInt64} {properties : List Binary64}
    (h : Column bytes withProperties (offset + decoded * 8) targets properties)
    (buffered : Bool) :
    propertiesAt bytes withProperties buffered (offset + decoded * 8)
        (targets.take blockSize).length
          = .ok (if buffered then properties.take blockSize else [])
      ∧ Column bytes withProperties (offset + (decoded + (targets.take blockSize).length) * 8)
          (targets.drop blockSize) (properties.drop blockSize) := by
  have front := BlockDecoder.paired_take h.paired
  have back := BlockDecoder.paired_drop h.paired
  cases withProperties with
  | false =>
    have none : properties = [] := List.length_eq_zero_iff.mp h.paired
    subst none
    refine ⟨?_, back, fun absent => Bool.noConfusion absent⟩
    cases buffered <;> rfl
  | true =>
    rw [if_pos rfl] at front
    have content := h.content rfl
    rw [← List.take_append_drop blockSize properties, propertyBytes_append] at content
    have offset' : offset + decoded * 8 + (Packed.propertyBytes (properties.take blockSize)).length
        = offset + (decoded + (targets.take blockSize).length) * 8 := by
      rw [length_propertyBytes, front]
      omega
    refine ⟨?_, back, fun _ => offset' ▸ content.back⟩
    cases buffered with
    | false => rfl
    | true =>
      rw [← front]
      exact readProperties_of_spells content.front

theorem nextPlain_of_stands {bytes : List UInt8} {degree decoded : Nat} {withProperties : Bool}
    {targets : List UInt64} {properties : List Binary64}
    (h : Stands bytes (.plain degree decoded withProperties) targets properties)
    (buffered : Bool) :
    ∃ d', nextPlain bytes buffered degree decoded withProperties
        = (.ok ⟨targets.take blockSize, if buffered then properties.take blockSize else []⟩, d')
      ∧ Stands bytes d' (targets.drop blockSize) (properties.drop blockSize) := by
  cases h with
  | plain left content column =>
    obtain ⟨chunk, others⟩ := column.next buffered
    rw [← List.take_append_drop blockSize targets, wordBytes_append] at content
    have words := readWords_of_spells content.front
    have rest := content.back
    rw [length_wordBytes, ← Nat.add_mul] at rest
    refine ⟨.plain degree (decoded + (targets.take blockSize).length) withProperties, ?_, ?_⟩
    · rw [nextPlain, length_take_block left, words]
      simp only [chunk]
    · exact .plain (left_drop_block left) rest others

theorem nextVarLong_of_stands {bytes : List UInt8} {degree decoded streamLength : Nat}
    {position : DeltaStream.Position} {withProperties : Bool}
    {targets : List UInt64} {properties : List Binary64}
    (h : Stands bytes (.varLong degree decoded streamLength position withProperties) targets
      properties) (buffered : Bool) :
    ∃ d', nextVarLong bytes buffered degree decoded streamLength position withProperties
        = (.ok ⟨targets.take blockSize, if buffered then properties.take blockSize else []⟩, d')
      ∧ Stands bytes d' (targets.drop blockSize) (properties.drop blockSize) := by
  cases id h with
  | varLong left inside content column =>
    obtain ⟨chunk, others⟩ := column.next buffered
    by_cases none : targets = []
    · subst none
      have empty : properties = [] := by
        rcases h.paired with same | empty
        · exact List.length_eq_zero_iff.mp same
        · exact empty
      subst empty
      refine ⟨.varLong degree decoded streamLength position withProperties, ?_, h⟩
      rw [nextVarLong, length_take_block left]
      cases buffered <;> rfl
    · have some : (targets.take blockSize).length ≠ 0 := by
        cases targets with
        | nil => exact absurd rfl none
        | cons t targets => exact Nat.succ_ne_zero _
      -- the words of this chunk, and the stream behind them
      have front := DeltaStream.encodeFrom_append position.running (targets.take blockSize)
        (targets.drop blockSize)
      rw [List.take_append_drop] at front
      have read : DeltaStream.read id bytes streamLength position (targets.take blockSize).length
          = ⟨targets.take blockSize,
              ⟨position.offset
                  + (DeltaStream.encodeFrom position.running (targets.take blockSize)).length,
                lastFrom position.running (targets.take blockSize)⟩,
              .ok (targets.take blockSize).length⟩ := by
        rw [DeltaStream.read, if_neg (Nat.not_lt.mpr inside), content, front,
          DeltaStream.readFrom_encodeFrom, List.map_id, Nat.zero_add]
      refine ⟨.varLong degree (decoded + (targets.take blockSize).length) streamLength
        ⟨position.offset
            + (DeltaStream.encodeFrom position.running (targets.take blockSize)).length,
          lastFrom position.running (targets.take blockSize)⟩ withProperties, ?_, ?_⟩
      · rw [nextVarLong, length_take_block left]
        simp only [if_neg some, read, ne_eq, not_true_eq_false, if_false, chunk]
      · refine .varLong (left_drop_block left) inside ?_ others
        rw [← List.drop_drop, content, front, List.drop_left]

/-- One call yields the next targets, up to 64 of them, and leaves the decoder before the others. -/
theorem next_of_stands {bytes : List UInt8} {d : Decoder} {targets : List UInt64}
    {properties : List Binary64} (h : Stands bytes d targets properties) (buffered : Bool) :
    ∃ d', d.next bytes buffered
        = (.ok ⟨targets.take blockSize, if buffered then properties.take blockSize else []⟩, d')
      ∧ Stands bytes d' (targets.drop blockSize) (properties.drop blockSize) := by
  cases id h with
  | plain => exact nextPlain_of_stands h buffered
  | varLong => exact nextVarLong_of_stands h buffered
  | packed ahead =>
    obtain ⟨blocks, step, others⟩ := BlockDecoder.next_of_stands ahead buffered
    refine ⟨.packed blocks, ?_, .packed others⟩
    rw [next, step]

/-! ### Call after call -/

/-- Called until a call brings no target, the decoder brings these chunks. -/
inductive Yields (bytes : List UInt8) (buffered : Bool) : Decoder → List Chunk → Prop
  | done {d d' : Decoder} (step : d.next bytes buffered = (.ok {}, d')) : Yields bytes buffered d []
  | more {d d' : Decoder} {chunk : Chunk} {rest : List Chunk}
      (step : d.next bytes buffered = (.ok chunk, d')) (some : chunk.targets ≠ [])
      (others : Yields bytes buffered d' rest) : Yields bytes buffered d (chunk :: rest)

/-- The targets of some chunks. -/
def targetsOf (chunks : List Chunk) : List UInt64 := chunks.flatMap Chunk.targets

/-- The properties of some chunks. -/
def propertiesOf (chunks : List Chunk) : List Binary64 := chunks.flatMap Chunk.properties

/-- A chunk pairs each of its targets with a property, or brings no property at all. -/
def Paired (withProperties : Bool) (chunk : Chunk) : Prop :=
  chunk.properties.length = if withProperties then chunk.targets.length else 0

theorem paired_chunk {withProperties buffered : Bool} {targets : List UInt64}
    {properties : List Binary64}
    (h : properties.length = if withProperties then targets.length else 0) :
    Paired (withProperties && buffered)
      ⟨targets.take blockSize, if buffered then properties.take blockSize else []⟩ := by
  have front := BlockDecoder.paired_take h
  cases buffered with
  | false => rw [Bool.and_false]; rfl
  | true => rw [Bool.and_true]; exact front

/-- Where a decoder stands says everything that it still brings. -/
theorem yields_of_stands {bytes : List UInt8} (buffered withProperties : Bool) {d : Decoder}
    {targets : List UInt64} {properties : List Binary64} (h : Stands bytes d targets properties)
    (paired : properties.length = if withProperties then targets.length else 0) :
    ∃ chunks, Yields bytes buffered d chunks
      ∧ targetsOf chunks = targets
      ∧ propertiesOf chunks = (if buffered then properties else [])
      ∧ ∀ chunk ∈ chunks, Paired (withProperties && buffered) chunk := by
  -- every call that brings a target leaves fewer of them
  induction size : targets.length using Nat.strongRecOn generalizing d targets properties with
  | ind n ih =>
    obtain ⟨d', step, others⟩ := next_of_stands h buffered
    by_cases none : targets = []
    · have empty : properties = [] := by
        subst none
        apply List.length_eq_zero_iff.mp
        rw [paired]
        split <;> rfl
      subst none empty
      have last : d.next bytes buffered = (.ok {}, d') := by
        rw [step]
        cases buffered <;> rfl
      refine ⟨[], .done last, rfl, ?_, fun _ member => absurd member List.not_mem_nil⟩
      cases buffered <;> rfl
    · have some : targets.take blockSize ≠ [] := by
        cases targets with
        | nil => exact absurd rfl none
        | cons t targets => exact List.cons_ne_nil _ _
      have shorter : (targets.drop blockSize).length < targets.length := by
        have pos := List.length_pos_iff.mpr none
        rw [List.length_drop, blockSize]
        omega
      obtain ⟨rest, yields, ts, ps, all⟩ :=
        ih _ (size ▸ shorter) others (BlockDecoder.paired_drop paired) rfl
      refine ⟨_ :: rest, .more step some yields, ?_, ?_, ?_⟩
      · rw [targetsOf, List.flatMap_cons, ← targetsOf, ts, List.take_append_drop]
      · rw [propertiesOf, List.flatMap_cons, ← propertiesOf, ps]
        cases buffered with
        | false => rfl
        | true => exact List.take_append_drop blockSize properties
      · intro chunk member
        rcases List.mem_cons.mp member with rfl | member
        · exact paired_chunk paired
        · exact all chunk member

/-- With calls enough, `collect` brings together all that a decoder yields. -/
theorem collect_of_yields {bytes : List UInt8} {buffered : Bool} {d : Decoder}
    {chunks : List Chunk} (h : Yields bytes buffered d chunks) {calls : Nat}
    (enough : chunks.length < calls) :
    d.collect bytes buffered calls = .ok ⟨targetsOf chunks, propertiesOf chunks⟩ := by
  induction h generalizing calls with
  | done step =>
    cases calls with
    | zero => exact absurd enough (Nat.not_lt_zero _)
    | succ calls =>
      rw [collect, step]
      rfl
  | @more d d' chunk rest step some others ih =>
    cases calls with
    | zero => exact absurd enough (Nat.not_lt_zero _)
    | succ calls =>
      have next := ih (Nat.lt_of_succ_lt_succ enough)
      have more : chunk.targets.isEmpty = false := by
        rw [List.isEmpty_eq_false_iff]
        exact some
      rw [collect, step]
      simp only [more, next, Bool.false_eq_true, if_false]
      rfl

theorem length_le_of_yields {bytes : List UInt8} {buffered : Bool} {d : Decoder}
    {chunks : List Chunk} (h : Yields bytes buffered d chunks) :
    chunks.length ≤ (targetsOf chunks).length := by
  induction h with
  | done step => exact Nat.le_refl 0
  | @more d d' chunk rest step some others ih =>
    have pos := List.length_pos_iff.mpr some
    rw [targetsOf, List.flatMap_cons, List.length_append, List.length_cons, ← targetsOf]
    omega

/-- The number of calls `drain` makes is enough. -/
theorem drain_of_stands {bytes : List UInt8} (buffered withProperties : Bool) {d : Decoder}
    {targets : List UInt64} {properties : List Binary64} (h : Stands bytes d targets properties)
    (paired : properties.length = if withProperties then targets.length else 0) :
    d.drain bytes buffered = .ok ⟨targets, if buffered then properties else []⟩ := by
  obtain ⟨chunks, yields, ts, ps, -⟩ := yields_of_stands buffered withProperties h paired
  have few := length_le_of_yields yields
  rw [ts] at few
  rw [drain, h.remaining, collect_of_yields yields (Nat.lt_succ_of_le few), ts, ps]

/-- A new decoder stands before the whole list. -/
theorem stands_start (mode : Mode) (withProperties : Bool) {targets : List UInt64}
    {properties : List Binary64}
    (paired : properties.length = if withProperties then targets.length else 0) :
    Stands (Adjacency.bytesOf mode targets properties)
      (start mode targets.length (Adjacency.bytesOf mode targets properties).length withProperties)
      targets properties := by
  have whole := spells_self (Adjacency.bytesOf mode targets properties)
  cases mode with
  | plain =>
    have own := whole.back
    rw [length_wordBytes] at own
    refine .plain (Nat.sub_zero _) whole.front ⟨paired, fun _ => ?_⟩
    rw [Nat.zero_add] at own
    rw [Nat.zero_mul, Nat.add_zero]
    exact own
  | varLong =>
    have own := whole.back
    rw [Nat.zero_add] at own
    have size : (if withProperties
          then (Adjacency.bytesOf .varLong targets properties).length - targets.length * 8
          else (Adjacency.bytesOf .varLong targets properties).length)
        = (DeltaStream.encode targets).length := by
      rw [Adjacency.bytesOf, List.length_append, length_propertyBytes, paired]
      cases withProperties with
      | false => rfl
      | true =>
        rw [if_pos rfl, if_pos rfl]
        exact Nat.add_sub_cancel ..
    have stream : (Adjacency.bytesOf .varLong targets properties).take
        (DeltaStream.encode targets).length = DeltaStream.encode targets := List.take_left
    rw [start, size]
    refine .varLong (Nat.sub_zero _) ?_ ?_ ⟨paired, fun _ => ?_⟩
    · rw [Adjacency.bytesOf, List.length_append]
      exact Nat.le_add_right _ _
    · rw [stream]
      rfl
    · rw [Nat.zero_mul, Nat.add_zero]
      exact own
  | packed tail => exact .packed (BlockDecoder.stands_start tail withProperties paired)

end Decoder

/-! ### Whole lists -/

namespace Adjacency

/-- Targets with their properties, and with NaN where there are none. -/
def pairs (targets : List UInt64) : (properties : Option (List Binary64)) → List (UInt64 × Binary64)
  | none => targets.map (·, .nan)
  | some properties => targets.zip properties

theorem encode_none (mode : Mode) (aggregation : Aggregation)
    (entries : List (UInt64 × Binary64)) :
    encode mode aggregation (entries.map (·.1)) none
      = .ok ⟨bytesOf mode ((aggregation.answer entries).map (·.1)) [],
          (aggregation.answer entries).map (·.1), none⟩ := by
  rw [← aggregation.reduce_eq entries]
  rfl

theorem encode_some (mode : Mode) (aggregation : Aggregation) {targets : List UInt64}
    {properties : List Binary64} (paired : properties.length = targets.length) :
    encode mode aggregation targets (some properties)
      = .ok ⟨bytesOf mode ((aggregation.answer (targets.zip properties)).map (·.1))
            ((aggregation.answer (targets.zip properties)).map (·.2)),
          (aggregation.answer (targets.zip properties)).map (·.1),
          some ((aggregation.answer (targets.zip properties)).map (·.2))⟩ := by
  rw [← aggregation.reducePairs_eq (targets.zip properties)]
  have reduced : aggregation.reducePaired targets properties
      = .ok (aggregation.reducePairs (targets.zip properties)) := if_pos paired.symm
  refine (if_neg fun refused => refused.2 paired.symm).trans ?_
  rw [reduced]
  rfl

/-- The list is written in its final form, with properties if it was given any. -/
theorem encode_of_paired (mode : Mode) (aggregation : Aggregation) {targets : List UInt64}
    {properties : Option (List Binary64)}
    (paired : ∀ ps ∈ properties, ps.length = targets.length) :
    ∃ e, encode mode aggregation targets properties = .ok e
      ∧ e.bytes = bytesOf mode e.targets (e.properties.getD [])
      ∧ (e.properties.getD []).length = (if properties.isSome then e.degree else 0)
      ∧ e.targets = (aggregation.answer (pairs targets properties)).map (·.1)
      ∧ e.properties = properties.map fun _ =>
          (aggregation.answer (pairs targets properties)).map (·.2) := by
  cases properties with
  | none =>
    have bare : (pairs targets none).map (·.1) = targets := by
      rw [pairs, List.map_map]
      exact List.map_id targets
    have encoded := encode_none mode aggregation (pairs targets none)
    rw [bare] at encoded
    exact ⟨_, encoded, rfl, rfl, rfl, rfl⟩
  | some ps =>
    refine ⟨_, encode_some mode aggregation (paired ps rfl), rfl, ?_, rfl, rfl⟩
    rw [Encoded.degree, Option.getD_some, List.length_map, List.length_map]
    rfl

/-- Every list that pairs its targets with properties, or has none, is encoded, behind whatever the
buffer held before.  Its bytes give back the sorted and aggregated targets, all at once or chunk by
chunk, and a caller with room for properties gets each target with its own. -/
theorem encode_reads_back (mode : Mode) (aggregation : Aggregation) (targets : List UInt64)
    (properties : Option (List Binary64)) (before : List UInt8)
    (paired : ∀ ps ∈ properties, ps.length = targets.length) :
    ∃ e bytes, encode mode aggregation targets properties = .ok e
      ∧ e.appendTo before = before ++ bytes
      ∧ e.targets = (aggregation.answer (pairs targets properties)).map (·.1)
      ∧ e.properties = (properties.map fun _ =>
          (aggregation.answer (pairs targets properties)).map (·.2))
      ∧ decode mode bytes e.degree properties.isSome = .ok e.targets
      ∧ ∃ chunks,
          (Decoder.start mode e.degree bytes.length properties.isSome).Yields bytes true chunks
            ∧ Decoder.targetsOf chunks = e.targets
            ∧ Decoder.propertiesOf chunks = e.properties.getD []
            ∧ ∀ chunk ∈ chunks, Decoder.Paired properties.isSome chunk := by
  obtain ⟨e, encoded, bytes, own, final, final'⟩ := encode_of_paired mode aggregation paired
  have stands := Decoder.stands_start mode properties.isSome own
  rw [← bytes] at stands
  obtain ⟨chunks, yields, ts, ps, alike⟩ :=
    Decoder.yields_of_stands true properties.isSome stands own
  rw [Bool.and_true] at alike
  refine ⟨e, e.bytes, encoded, rfl, final, final', ?_, chunks, yields, ts, ps, alike⟩
  have whole := Decoder.drain_of_stands false properties.isSome stands own
  rw [decode, Encoded.degree, whole]

/-- Three relationships to two nodes, packed behind two bytes. -/
theorem encode_reads_back_parallel :
    ∃ e bytes, encode (.packed .varLong) .single [7, 2, 7] (some [.one, .nan, .nan]) = .ok e
      ∧ e.appendTo [1, 2] = [1, 2] ++ bytes
      ∧ e.targets = [2, 7] ∧ e.properties = some [.nan, .one]
      ∧ decode (.packed .varLong) bytes 2 true = .ok [2, 7] := by
  obtain ⟨e, bytes, encoded, appended, targets, properties, read, -⟩ :=
    encode_reads_back (.packed .varLong) .single [7, 2, 7] (some [.one, .nan, .nan]) [1, 2]
      (by intro ps member; cases member; rfl)
  have final : Aggregation.single.answer (pairs [7, 2, 7] (some [.one, .nan, .nan]))
      = [(2, .nan), (7, .one)] := by cbv
  rw [final] at targets properties
  rw [Encoded.degree, targets] at read
  exact ⟨e, bytes, encoded, appended, targets, properties, read⟩

end Adjacency

end NeighborGraph
