import NeighborGraph.Codec.Adjacency

/-!
# Decoders on any bytes

A list that is decoded need not be one that was encoded: behind a valid checksum a graph file may
hold any bytes.  Here nothing is assumed of them.

`Decoder.next_cases` says all that one call can do to the number of decoded targets: it brings exactly
as many targets as a chunk has room for, or it fails and counts nothing.

`Decoder.next_of_blocked` says that a failed call is followed by failed calls only.  A failed call
may well have moved the decoder, so the next call really runs from another place; it fails because
no reader ever moves its offset back.  What could not be read at the old offset, a malformed word or
properties beyond the end of the bytes, cannot be read at the new one either.
-/

namespace NeighborGraph

/-! ### Words -/

namespace LittleEndian

theorem splitWord?_cases (bytes : List UInt8) :
    (∃ w, splitWord? bytes = some (w, bytes.drop 8) ∧ 8 ≤ bytes.length)
      ∨ splitWord? bytes = none ∧ bytes.length < 8 := by
  have length : (bytes.take 8).length = min 8 bytes.length := List.length_take
  by_cases enough : 8 ≤ bytes.length
  · exact .inl ⟨_, if_pos (by omega), enough⟩
  · exact .inr ⟨if_neg (by omega), by omega⟩

end LittleEndian

theorem wordsFrom_cases (size : Nat) (rest : List UInt8) (offset count : Nat) :
    (∃ ws, wordsFrom size rest offset count = .ok ws ∧ ws.length = count
        ∧ count * 8 ≤ rest.length)
      ∨ ∃ fault, wordsFrom size rest offset count = .error fault ∧ rest.length < count * 8 := by
  induction count generalizing rest offset with
  | zero => exact .inl ⟨[], rfl, rfl, by omega⟩
  | succ count ih =>
    rcases LittleEndian.splitWord?_cases rest with ⟨w, split, enough⟩ | ⟨split, short⟩
    · have behind : (rest.drop 8).length = rest.length - 8 := List.length_drop
      rcases ih (rest.drop 8) (offset + 8) with ⟨ws, read, length, inside⟩ | ⟨fault, read, beyond⟩
      · refine .inl ⟨w :: ws, ?_, by simp [length], by omega⟩
        simp only [wordsFrom, split, read, Except.map]
      · refine .inr ⟨fault, ?_, by omega⟩
        simp only [wordsFrom, split, read, Except.map]
    · refine .inr ⟨.wordPastEnd offset size, ?_, by omega⟩
      simp only [wordsFrom, split]

/-- Words are read exactly when the bytes from their offset on are enough for them. -/
theorem readWords_cases (bytes : List UInt8) (offset count : Nat) :
    (∃ ws, readWords bytes offset count = .ok ws ∧ ws.length = count
        ∧ count * 8 ≤ bytes.length - offset)
      ∨ ∃ fault, readWords bytes offset count = .error fault
        ∧ bytes.length - offset < count * 8 := by
  have behind := wordsFrom_cases bytes.length (bytes.drop offset) offset count
  rw [List.length_drop] at behind
  exact behind

theorem readProperties_cases (bytes : List UInt8) (offset count : Nat) :
    (∃ ps, readProperties bytes offset count = .ok ps ∧ ps.length = count
        ∧ count * 8 ≤ bytes.length - offset)
      ∨ ∃ fault, readProperties bytes offset count = .error fault
        ∧ bytes.length - offset < count * 8 := by
  rcases readWords_cases bytes offset count with ⟨ws, read, length, inside⟩ | ⟨fault, read, beyond⟩
  · refine .inl ⟨ws.map Binary64.mk, ?_, by simp [length], inside⟩
    rw [readProperties, read, Except.map]
  · refine .inr ⟨fault, ?_, beyond⟩
    rw [readProperties, read, Except.map]

/-! ### Var-longs -/

/-- Var-longs are all read, or reading stops before one that is malformed. -/
theorem readVarLongs_cases (bytes : List UInt8) (count offset : Nat) :
    (∃ ws stop, readVarLongs bytes count offset = (.ok ws, stop) ∧ ws.length = count
        ∧ offset ≤ stop)
      ∨ ∃ fault stop, readVarLongs bytes count offset = (.error fault, stop) ∧ offset ≤ stop
        ∧ readVarLong bytes stop = .error fault := by
  induction count generalizing offset with
  | zero => exact .inl ⟨[], offset, rfl, rfl, Nat.le_refl _⟩
  | succ count ih =>
    cases first : readVarLong bytes offset with
    | error fault =>
      refine .inr ⟨fault, offset, ?_, Nat.le_refl _, first⟩
      simp only [readVarLongs, first]
    | ok r =>
      rcases ih (offset + r.2) with ⟨ws, stop, read, length, behind⟩ | ⟨fault, stop, read, behind, at_stop⟩
      · refine .inl ⟨r.1 :: ws, stop, ?_, by simp [length], by omega⟩
        simp only [readVarLongs, first, read, Except.map]
      · refine .inr ⟨fault, stop, ?_, by omega, at_stop⟩
        simp only [readVarLongs, first, read, Except.map]

/-! ### Delta streams -/

namespace DeltaStream

/-- What stops a delta stream does not hang on its totals. -/
theorem outcome_readFrom (map : UInt64 → UInt64) (origin : Nat) (window : List UInt8)
    (slots offset count : Nat) (current : Partial) (running running' : UInt64) :
    (readFrom map origin window slots offset count current running).outcome
      = (readFrom map origin window slots offset count current running').outcome := by
  induction window generalizing slots offset count current running running' with
  | nil =>
    simp only [readFrom]
    split <;> rfl
  | cons byte rest ih =>
    cases slots with
    | zero => rfl
    | succ slots =>
      simp only [readFrom]
      split
      · rfl
      · split
        · exact ih ..
        · exact ih ..

/-- A stream fails without moving the offset, or it fills its slots, or it is read to its end. -/
theorem readFrom_cases (map : UInt64 → UInt64) (origin : Nat) (window : List UInt8)
    (slots offset count : Nat) (current : Partial) (running : UInt64) :
    let r := readFrom map origin window slots offset count current running
    (∃ fault, r.outcome = .error fault ∧ r.position.offset = origin)
      ∨ r.outcome = .ok (count + r.written.length)
        ∧ (r.written.length = slots
          ∨ r.written.length < slots ∧ r.position.offset = offset + window.length) := by
  induction window generalizing slots offset count current running with
  | nil =>
    simp only [readFrom]
    split
    · exact .inl ⟨_, rfl, rfl⟩
    · refine .inr ⟨rfl, ?_⟩
      cases slots with
      | zero => exact .inl rfl
      | succ slots => exact .inr ⟨Nat.succ_pos _, rfl⟩
  | cons byte rest ih =>
    cases slots with
    | zero => exact .inr ⟨rfl, .inl rfl⟩
    | succ slots =>
      simp only [readFrom]
      split
      · exact .inl ⟨_, rfl, rfl⟩
      · split
        · -- the byte ends a word, which takes one slot
          have others := ih slots (offset + 1) (count + 1) ⟨offset + 1, 0, 0⟩
            (advance running (current.word ||| VarLong.payload current.shift byte))
          generalize readFrom map origin rest slots (offset + 1) (count + 1) ⟨offset + 1, 0, 0⟩
            (advance running (current.word ||| VarLong.payload current.shift byte)) = r at others ⊢
          rcases others with failed | ⟨read, full⟩
          · exact .inl failed
          · simp only [Reading.cons, List.length_cons]
            refine .inr ⟨read.trans (congrArg Except.ok ?_), ?_⟩ <;> omega
        · have others := ih (slots + 1) (offset + 1) count
            ⟨current.start, current.shift + 7,
              current.word ||| VarLong.payload current.shift byte⟩ running
          rw [Nat.add_right_comm] at others
          exact others

/-- A call fails without moving the offset, or it fills its slots, or nothing is left to read. -/
theorem read_cases (map : UInt64 → UInt64) (bytes : List UInt8) (limit : Nat) (position : Position)
    (slots : Nat) :
    let r := read map bytes limit position slots
    (∃ fault, r.outcome = .error fault ∧ r.position.offset = position.offset)
      ∨ r.outcome = .ok r.written.length
        ∧ (r.written.length = slots
          ∨ r.written.length < slots ∧ (bytes.take limit).drop r.position.offset = []) := by
  simp only [read]
  split
  · exact .inl ⟨_, rfl, rfl⟩
  · have others := readFrom_cases map position.offset ((bytes.take limit).drop position.offset) slots
      position.offset 0 ⟨position.offset, 0, 0⟩ position.running
    generalize readFrom map position.offset ((bytes.take limit).drop position.offset) slots
      position.offset 0 ⟨position.offset, 0, 0⟩ position.running = r at others ⊢
    rcases others with failed | ⟨read, filled | ⟨short, all⟩⟩
    · exact .inl failed
    · exact .inr ⟨by rw [read, Nat.zero_add], .inl filled⟩
    · refine .inr ⟨by rw [read, Nat.zero_add], .inr ⟨short, ?_⟩⟩
      apply List.drop_eq_nil_of_le
      rw [all, List.length_drop]
      omega

/-- A call that starts at the same offset ends the same way, whatever the total. -/
theorem outcome_read (map : UInt64 → UInt64) (bytes : List UInt8) (limit : Nat)
    {position position' : Position} (same : position'.offset = position.offset) (slots : Nat) :
    (read map bytes limit position' slots).outcome
      = (read map bytes limit position slots).outcome := by
  simp only [read, same]
  split
  · rfl
  · exact outcome_readFrom ..

/-- Where nothing is left to read, no slot is filled. -/
theorem outcome_read_of_exhausted (map : UInt64 → UInt64) {bytes : List UInt8} {limit : Nat}
    {position : Position} (exhausted : (bytes.take limit).drop position.offset = []) {slots : Nat}
    (some : slots ≠ 0) : (read map bytes limit position slots).outcome ≠ .ok slots := by
  simp only [read, exhausted, readFrom]
  split
  · simp
  · simpa using some.symm

end DeltaStream

/-! ### What is counted -/

namespace Decoder

/-- Number of targets of the whole list. -/
def degree : Decoder → Nat
  | plain degree _ _ => degree
  | varLong degree _ _ _ _ => degree
  | packed blocks => blocks.degree

/-- Number of targets counted as decoded. -/
def decoded : Decoder → Nat
  | plain _ decoded _ => decoded
  | varLong _ decoded _ _ _ => decoded
  | packed blocks => blocks.decoded

/-- Whether the list has properties. -/
def withProperties : Decoder → Bool
  | plain _ _ withProperties => withProperties
  | varLong _ _ _ _ withProperties => withProperties
  | packed blocks => blocks.withProperties

theorem remaining_eq (d : Decoder) : d.remaining = d.degree - d.decoded := by
  cases d <;> rfl

/-- The same list, with `found` more targets counted as decoded. -/
structure Counts (d d' : Decoder) (found : Nat) : Prop where
  degree : d'.degree = d.degree
  withProperties : d'.withProperties = d.withProperties
  decoded : d'.decoded = d.decoded + found

/-- A chunk brings all the targets that it has room for, each with its property if they are asked
for. -/
structure Brings (d : Decoder) (buffered : Bool) (chunk : Chunk) : Prop where
  targets : chunk.targets.length = min d.remaining blockSize
  properties : chunk.properties.length
    = if d.withProperties && buffered then chunk.targets.length else 0

end Decoder

/-! ### Packed blocks -/

namespace Packed

theorem length_totals (running : UInt64) (gaps : List UInt64) :
    (totals running gaps).length = gaps.length := by
  induction gaps generalizing running with
  | nil => rfl
  | cons g gaps ih => simp [totals, ih]

end Packed

namespace Bits

theorem length_of_readAll {r : Reader} {bits count : Nat} {values : List UInt64}
    (read : r.readAll bits count = .ok values) : values.length = count := by
  induction count generalizing r values with
  | zero =>
    cases read
    rfl
  | succ count ih =>
    rw [Reader.readAll] at read
    split at read
    · cases read
    · next v r' _ =>
      cases rest : r'.readAll bits count with
      | error fault => simp [rest, Except.map] at read
      | ok others =>
        simp only [rest, Except.map, Except.ok.injEq] at read
        rw [← read, List.length_cons, ih rest]

end Bits

namespace BlockDecoder

/-- At or behind the same block, with no more targets counted. -/
structure Moves (d d' : BlockDecoder) : Prop where
  degree : d'.degree = d.degree
  tail : d'.tail = d.tail
  withProperties : d'.withProperties = d.withProperties
  decoded : d'.decoded = d.decoded
  offset : d.offset ≤ d'.offset

theorem Moves.refl (d : BlockDecoder) : d.Moves d := ⟨rfl, rfl, rfl, rfl, Nat.le_refl _⟩

theorem Moves.remaining {d d' : BlockDecoder} (h : d.Moves d') : d'.remaining = d.remaining := by
  rw [BlockDecoder.remaining, BlockDecoder.remaining, h.degree, h.decoded]

theorem readBlock_cases (d : BlockDecoder) (bytes : List UInt8) (count : Nat) :
    (∃ gaps d', d.readBlock bytes count = (.ok gaps, d') ∧ gaps.length = count ∧ d.Moves d')
      ∨ ∃ fault, d.readBlock bytes count = (.error fault, d) := by
  rw [readBlock]
  split
  · exact .inr ⟨_, rfl⟩
  · dsimp only
    split
    · exact .inr ⟨_, rfl⟩
    · split
      · exact .inr ⟨_, rfl⟩
      · split
        · exact .inr ⟨_, rfl⟩
        · next gaps unpacked =>
          exact .inl ⟨gaps, _, rfl, Bits.length_of_readAll unpacked,
            ⟨rfl, rfl, rfl, rfl, Nat.le_add_right _ _⟩⟩

/-- Gaps are read and passed, or cannot be read now nor at the place where this leaves the decoder. -/
theorem readGaps_cases (d : BlockDecoder) (bytes : List UInt8) {count : Nat} (some : count ≠ 0) :
    (∃ gaps d', d.readGaps bytes count = (.ok gaps, d') ∧ gaps.length = count ∧ d.Moves d')
      ∨ ∃ fault d', d.readGaps bytes count = (.error fault, d') ∧ d.Moves d'
        ∧ ∃ d'', d'.readGaps bytes count = (.error fault, d'') := by
  by_cases words : count < blockSize ∧ d.tail = .varLong
  · rcases readVarLongs_cases bytes count d.offset with
      ⟨gaps, stop, read, length, behind⟩ | ⟨fault, stop, read, behind, at_stop⟩
    · refine .inl ⟨gaps, { d with offset := stop }, ?_, length, ⟨rfl, rfl, rfl, rfl, behind⟩⟩
      simp only [readGaps, if_pos words, read]
    · refine .inr ⟨fault, { d with offset := stop }, ?_, ⟨rfl, rfl, rfl, rfl, behind⟩,
        { d with offset := stop }, ?_⟩
      · simp only [readGaps, if_pos words, read]
      · -- the malformed word is now the first one
        obtain ⟨more, rfl⟩ := Nat.exists_eq_succ_of_ne_zero some
        simp only [readGaps, if_pos words, readVarLongs, at_stop]
  · have block : d.readGaps bytes count = d.readBlock bytes count := by
      simp only [readGaps, if_neg words]
    rcases readBlock_cases d bytes count with read | ⟨fault, failed⟩
    · exact .inl (block ▸ read)
    · exact .inr ⟨fault, d, block.trans failed, Moves.refl d, d, block.trans failed⟩

/-- The properties of a block are asked for and lie beyond the end of the bytes. -/
def Lacks (d : BlockDecoder) (bytes : List UInt8) (buffered : Bool) (count : Nat) : Prop :=
  d.withProperties = true ∧ buffered = true ∧ bytes.length - d.offset < count * 8

theorem Lacks.behind {d d' : BlockDecoder} {bytes : List UInt8} {buffered : Bool} {count : Nat}
    (h : d.Lacks bytes buffered count) (flag : d'.withProperties = d.withProperties)
    (offset : d.offset ≤ d'.offset) : d'.Lacks bytes buffered count := by
  obtain ⟨some, asked, beyond⟩ := h
  exact ⟨flag.trans some, asked, by omega⟩

/-- The properties of a block are read or passed unread, unless they lie beyond the end. -/
theorem readBlockProperties_cases (d : BlockDecoder) (bytes : List UInt8) (buffered : Bool)
    (targets : List UInt64) :
    (¬d.Lacks bytes buffered targets.length ∧ ∃ ps d',
        d.readBlockProperties bytes buffered targets = (.ok ⟨targets, ps⟩, d')
          ∧ ps.length = (if d.withProperties && buffered then targets.length else 0)
          ∧ (Decoder.packed d).Counts (.packed d') targets.length)
      ∨ d.Lacks bytes buffered targets.length
        ∧ ∃ fault, d.readBlockProperties bytes buffered targets = (.error fault, d) := by
  obtain ⟨degree, tail, withProperties, block, offset, running, decoded⟩ := d
  simp only [readBlockProperties, Lacks]
  cases withProperties with
  | false => exact .inl ⟨by simp, [], _, rfl, rfl, ⟨rfl, rfl, rfl⟩⟩
  | true =>
    cases buffered with
    | false => exact .inl ⟨by simp, [], _, rfl, rfl, ⟨rfl, rfl, rfl⟩⟩
    | true =>
      rcases readProperties_cases bytes offset targets.length with
        ⟨ps, read, length, inside⟩ | ⟨fault, read, beyond⟩
      · simp only [if_true, read]
        exact .inl ⟨by omega, ps, _, rfl, length, ⟨rfl, rfl, rfl⟩⟩
      · refine .inr ⟨⟨rfl, rfl, beyond⟩, fault, ?_⟩
        simp only [if_true, read]

/-- The next block cannot be had: its gaps are malformed, or its properties lie beyond the end. -/
def Blocked (d : BlockDecoder) (bytes : List UInt8) (buffered : Bool) : Prop :=
  min d.remaining blockSize ≠ 0
    ∧ ((∃ fault d', d.readGaps bytes (min d.remaining blockSize) = (.error fault, d'))
      ∨ d.Lacks bytes buffered (min d.remaining blockSize))

/-- One call brings all the targets that a chunk has room for, or it leaves the decoder blocked. -/
theorem next_cases (d : BlockDecoder) (bytes : List UInt8) (buffered : Bool) :
    (∃ chunk d', d.next bytes buffered = (.ok chunk, d')
        ∧ (Decoder.packed d).Brings buffered chunk
        ∧ (Decoder.packed d).Counts (.packed d') chunk.targets.length)
      ∨ ∃ fault d', d.next bytes buffered = (.error fault, d') ∧ d.Moves d'
        ∧ d'.Blocked bytes buffered := by
  by_cases none : min d.remaining blockSize = 0
  · refine .inl ⟨{}, d, ?_, ⟨none.symm, by split <;> rfl⟩, ⟨rfl, rfl, rfl⟩⟩
    simp only [next, if_pos none]
  · rcases readGaps_cases d bytes none with
      ⟨gaps, d₁, read, length, moves⟩ | ⟨fault, d₁, failed, moves, again⟩
    · have count : (Packed.totals d₁.running gaps).length = min d.remaining blockSize :=
        (Packed.length_totals _ _).trans length
      generalize targets_eq : Packed.totals d₁.running gaps = targets at count
      rcases readBlockProperties_cases
          { d₁ with running := targets.getLast?.getD d₁.running } bytes buffered targets with
        ⟨-, ps, d₂, done, paired, counts⟩ | ⟨lacks, fault, failed⟩
      · refine .inl ⟨⟨targets, ps⟩, d₂, ?_, ⟨count, ?_⟩, ⟨counts.degree.trans moves.degree,
          counts.withProperties.trans moves.withProperties, ?_⟩⟩
        · simp only [next, if_neg none, read, targets_eq, done]
        · show ps.length = if d.withProperties && buffered then targets.length else 0
          rw [← moves.withProperties]
          exact paired
        · exact counts.decoded.trans (congrArg (· + targets.length) moves.decoded)
      · refine .inr ⟨fault, { d₁ with running := targets.getLast?.getD d₁.running }, ?_,
          ⟨moves.degree, moves.tail, moves.withProperties, moves.decoded, moves.offset⟩, ?_⟩
        · simp only [next, if_neg none, read, targets_eq, failed]
        · rw [count, ← moves.remaining] at lacks
          exact ⟨moves.remaining ▸ none, .inr lacks⟩
    · refine .inr ⟨fault, d₁, ?_, moves, ?_⟩
      · simp only [next, if_neg none, failed]
      · rw [← moves.remaining] at none again
        exact ⟨none, .inl ⟨fault, again⟩⟩

/-- A blocked decoder fails. -/
theorem next_of_blocked {d : BlockDecoder} {bytes : List UInt8} {buffered : Bool}
    (h : d.Blocked bytes buffered) :
    ∃ fault d', d.next bytes buffered = (.error fault, d') := by
  obtain ⟨some, why⟩ := h
  rcases readGaps_cases d bytes some with
    ⟨gaps, d₁, read, length, moves⟩ | ⟨fault, d₁, failed, -, -⟩
  · rcases why with ⟨fault, d', failed⟩ | lacks
    · rw [read] at failed
      cases failed
    · have count : (Packed.totals d₁.running gaps).length = min d.remaining blockSize :=
        (Packed.length_totals _ _).trans length
      generalize targets_eq : Packed.totals d₁.running gaps = targets at count
      rw [← count] at lacks
      -- passing the gaps moved the offset forward only, so the properties are still out of reach
      have beyond : Lacks { d₁ with running := targets.getLast?.getD d₁.running } bytes buffered
          targets.length := lacks.behind moves.withProperties moves.offset
      rcases readBlockProperties_cases _ bytes buffered targets with
        ⟨inside, -⟩ | ⟨-, fault, failed⟩
      · exact absurd beyond inside
      · refine ⟨fault, { d₁ with running := targets.getLast?.getD d₁.running }, ?_⟩
        simp only [next, if_neg some, read, targets_eq, failed]
  · refine ⟨fault, d₁, ?_⟩
    simp only [next, if_neg some, failed]

end BlockDecoder

/-! ### Decoders of every mode -/

namespace Decoder

theorem propertiesAt_cases (bytes : List UInt8) (withProperties buffered : Bool)
    (offset count : Nat) :
    (∃ ps, propertiesAt bytes withProperties buffered offset count = .ok ps
        ∧ ps.length = if withProperties && buffered then count else 0)
      ∨ ∃ fault, propertiesAt bytes withProperties buffered offset count = .error fault := by
  rw [propertiesAt]
  split
  · rcases readProperties_cases bytes offset count with ⟨ps, read, length, -⟩ | ⟨fault, read, -⟩
    · exact .inl ⟨ps, read, length⟩
    · exact .inr ⟨fault, read⟩
  · exact .inl ⟨[], rfl, rfl⟩

/-- What keeps a decoder from bringing its next chunk, in the same place or further on. -/
inductive Blocked (bytes : List UInt8) (buffered : Bool) : Decoder → Prop
  | plain {degree decoded : Nat} {withProperties : Bool} {fault : EncodingFault} {d' : Decoder}
      (failed : nextPlain bytes buffered degree decoded withProperties = (.error fault, d')) :
      Blocked bytes buffered (.plain degree decoded withProperties)
  | varLong {degree decoded streamLength : Nat} {position : DeltaStream.Position}
      {withProperties : Bool} (some : min (degree - decoded) blockSize ≠ 0)
      (short : (DeltaStream.read id bytes streamLength position
          (min (degree - decoded) blockSize)).outcome ≠ .ok (min (degree - decoded) blockSize)
        ∨ ∃ fault, propertiesAt bytes withProperties buffered (streamLength + decoded * 8)
          (min (degree - decoded) blockSize) = .error fault) :
      Blocked bytes buffered (.varLong degree decoded streamLength position withProperties)
  | packed {blocks : BlockDecoder} (ahead : blocks.Blocked bytes buffered) :
      Blocked bytes buffered (.packed blocks)

theorem nextPlain_cases (bytes : List UInt8) (buffered : Bool) (degree decoded : Nat)
    (withProperties : Bool) :
    let d := plain degree decoded withProperties
    (∃ chunk d', nextPlain bytes buffered degree decoded withProperties = (.ok chunk, d')
        ∧ d.Brings buffered chunk ∧ d.Counts d' chunk.targets.length)
      ∨ ∃ fault, nextPlain bytes buffered degree decoded withProperties = (.error fault, d) := by
  intro d
  rcases readWords_cases bytes (decoded * 8) (min (degree - decoded) blockSize) with
    ⟨ws, read, length, -⟩ | ⟨fault, read, -⟩
  · rcases propertiesAt_cases bytes withProperties buffered (degree * 8 + decoded * 8)
        (min (degree - decoded) blockSize) with ⟨ps, brought, paired⟩ | ⟨fault, failed⟩
    · refine .inl ⟨⟨ws, ps⟩, .plain degree (decoded + ws.length) withProperties, ?_,
        ⟨length, ?_⟩, ⟨rfl, rfl, rfl⟩⟩
      · simp only [nextPlain, read, brought, length]
      · rw [← length] at paired
        exact paired
    · exact .inr ⟨fault, by simp only [nextPlain, read, failed, d]⟩
  · exact .inr ⟨fault, by simp only [nextPlain, read, d]⟩

theorem nextVarLong_cases (bytes : List UInt8) (buffered : Bool) (degree decoded streamLength : Nat)
    (position : DeltaStream.Position) (withProperties : Bool) :
    let d := varLong degree decoded streamLength position withProperties
    (∃ chunk d', nextVarLong bytes buffered degree decoded streamLength position withProperties
          = (.ok chunk, d') ∧ d.Brings buffered chunk ∧ d.Counts d' chunk.targets.length)
      ∨ ∃ fault d', nextVarLong bytes buffered degree decoded streamLength position withProperties
          = (.error fault, d') ∧ d.Counts d' 0 ∧ Blocked bytes buffered d' := by
  intro d
  by_cases none : min (degree - decoded) blockSize = 0
  · refine .inl ⟨{}, d, ?_, ⟨none.symm, by split <;> rfl⟩, ⟨rfl, rfl, rfl⟩⟩
    simp only [nextVarLong, if_pos none, d]
  · have ends := DeltaStream.read_cases id bytes streamLength position
      (min (degree - decoded) blockSize)
    have repeats := fun (r : DeltaStream.Position) (same : r.offset = position.offset) =>
      DeltaStream.outcome_read id bytes streamLength same (min (degree - decoded) blockSize)
    simp only [nextVarLong, if_neg none]
    generalize DeltaStream.read id bytes streamLength position
      (min (degree - decoded) blockSize) = r at ends repeats ⊢
    rcases ends with ⟨fault, outcome, unmoved⟩ | ⟨outcome, filled | ⟨short, exhausted⟩⟩
    · -- a malformed word is met again from the same offset
      rw [outcome]
      refine .inr ⟨fault, _, rfl, ⟨rfl, rfl, rfl⟩, .varLong none (.inl ?_)⟩
      rw [repeats r.position unmoved, outcome]
      exact fun absent => by cases absent
    · rw [outcome, filled]
      simp only [ne_eq, not_true_eq_false, if_false]
      rcases propertiesAt_cases bytes withProperties buffered (streamLength + decoded * 8)
          (min (degree - decoded) blockSize) with ⟨ps, brought, paired⟩ | ⟨fault, failed⟩
      · rw [brought]
        refine .inl ⟨⟨r.written, ps⟩, _, rfl, ⟨filled, ?_⟩, ⟨rfl, rfl, ?_⟩⟩
        · rw [← filled] at paired
          exact paired
        · exact congrArg (decoded + ·) filled.symm
      · rw [failed]
        exact .inr ⟨fault, _, rfl, ⟨rfl, rfl, rfl⟩, .varLong none (.inr ⟨fault, failed⟩)⟩
    · -- a stream that ended early is at its end
      rw [outcome]
      simp only [if_pos (show r.written.length ≠ min (degree - decoded) blockSize by omega)]
      refine .inr ⟨_, _, rfl, ⟨rfl, rfl, rfl⟩, .varLong none (.inl ?_)⟩
      exact DeltaStream.outcome_read_of_exhausted id exhausted none

/-- One call brings all the targets that a chunk has room for, or it counts none and leaves the
decoder blocked. -/
theorem next_cases (d : Decoder) (bytes : List UInt8) (buffered : Bool) :
    (∃ chunk d', d.next bytes buffered = (.ok chunk, d') ∧ d.Brings buffered chunk
        ∧ d.Counts d' chunk.targets.length)
      ∨ ∃ fault d', d.next bytes buffered = (.error fault, d') ∧ d.Counts d' 0
        ∧ Blocked bytes buffered d' := by
  cases d with
  | plain degree decoded withProperties =>
    rcases nextPlain_cases bytes buffered degree decoded withProperties with
      brought | ⟨fault, failed⟩
    · exact .inl brought
    · exact .inr ⟨fault, _, failed, ⟨rfl, rfl, rfl⟩, .plain failed⟩
  | varLong degree decoded streamLength position withProperties =>
    exact nextVarLong_cases bytes buffered degree decoded streamLength position withProperties
  | packed blocks =>
    rcases blocks.next_cases bytes buffered with
      ⟨chunk, blocks', step, brings, counts⟩ | ⟨fault, blocks', step, moves, blocked⟩
    · exact .inl ⟨chunk, .packed blocks', by rw [next, step], brings, counts⟩
    · exact .inr ⟨fault, .packed blocks', by rw [next, step],
        ⟨moves.degree, moves.withProperties, moves.decoded⟩, .packed blocked⟩

/-- A decoder that has nothing left brings nothing, and stays where it is. -/
theorem next_of_finished {d : Decoder} (finished : d.remaining = 0) (bytes : List UInt8)
    (buffered : Bool) : d.next bytes buffered = (.ok {}, d) := by
  have none : min d.remaining blockSize = 0 := by omega
  cases d with
  | plain degree decoded withProperties =>
    have none : min (degree - decoded) blockSize = 0 := none
    have words (offset : Nat) : readWords bytes offset 0 = .ok [] := rfl
    have properties (offset : Nat) :
        propertiesAt bytes withProperties buffered offset 0 = .ok [] := by
      rw [propertiesAt]
      split <;> rfl
    simp only [next, nextPlain, none, words, properties, Nat.add_zero]
  | varLong degree decoded streamLength position withProperties =>
    exact if_pos none
  | packed blocks =>
    have step : blocks.next bytes buffered = (.ok {}, blocks) := if_pos none
    rw [next, step]

/-- A blocked decoder fails, and stays blocked. -/
theorem next_of_blocked {bytes : List UInt8} {buffered : Bool} {d : Decoder}
    (h : Blocked bytes buffered d) :
    ∃ fault d', d.next bytes buffered = (.error fault, d') ∧ d.Counts d' 0
      ∧ Blocked bytes buffered d' := by
  have fails : ∃ fault d', d.next bytes buffered = (.error fault, d') := by
    cases h with
    | plain failed => exact ⟨_, _, failed⟩
    | packed ahead =>
      obtain ⟨fault, blocks', failed⟩ := BlockDecoder.next_of_blocked ahead
      exact ⟨fault, .packed blocks', by rw [next, failed]⟩
    | @varLong degree decoded streamLength position withProperties some short =>
      simp only [next, nextVarLong, if_neg some]
      generalize DeltaStream.read id bytes streamLength position
        (min (degree - decoded) blockSize) = r at short ⊢
      cases outcome : r.outcome with
      | error fault => exact ⟨fault, _, rfl⟩
      | ok found =>
        by_cases full : found = min (degree - decoded) blockSize
        · obtain ⟨fault, failed⟩ := short.resolve_left (by simp [outcome, full])
          simp only [full, ne_eq, not_true_eq_false, if_false, failed]
          exact ⟨fault, _, rfl⟩
        · simp only [if_pos (show found ≠ min (degree - decoded) blockSize from full)]
          exact ⟨_, _, rfl⟩
  obtain ⟨fault, d', failed⟩ := fails
  rcases next_cases d bytes buffered with ⟨chunk, d'', brought, -⟩ | again
  · rw [failed] at brought
    cases brought
  · exact again

end Decoder

end NeighborGraph
