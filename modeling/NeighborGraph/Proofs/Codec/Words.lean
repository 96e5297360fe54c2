import NeighborGraph.Codec.Adjacency

/-!
# Words at a place — what fixed-width readers find in a byte list

Every reader of an adjacency list takes the whole list and an offset into it.  `Spells` says what
stands at an offset, whatever comes before and after, so that a reader can be followed from one part
of a list to the next (`Spells.front`, `Spells.back`).  Fixed-width readers find the words that stand
at their offset: `readWords_of_spells` and `readProperties_of_spells`.
-/

namespace NeighborGraph

/-- At `offset` the bytes go on with `part`. -/
def Spells (bytes : List UInt8) (offset : Nat) (part : List UInt8) : Prop :=
  ∃ before after, bytes = before ++ (part ++ after) ∧ before.length = offset

theorem spells_self (bytes : List UInt8) : Spells bytes 0 bytes :=
  ⟨[], [], by rw [List.append_nil, List.nil_append], rfl⟩

theorem Spells.front {bytes : List UInt8} {offset : Nat} {front back : List UInt8}
    (h : Spells bytes offset (front ++ back)) : Spells bytes offset front := by
  obtain ⟨before, after, rfl, length⟩ := h
  exact ⟨before, back ++ after, by rw [List.append_assoc], length⟩

theorem Spells.back {bytes : List UInt8} {offset : Nat} {front back : List UInt8}
    (h : Spells bytes offset (front ++ back)) : Spells bytes (offset + front.length) back := by
  obtain ⟨before, after, rfl, length⟩ := h
  refine ⟨before ++ front, after, by simp only [List.append_assoc], ?_⟩
  rw [List.length_append, length]

theorem Spells.drop {bytes : List UInt8} {offset : Nat} {part : List UInt8}
    (h : Spells bytes offset part) : ∃ after, bytes.drop offset = part ++ after := by
  obtain ⟨before, after, rfl, rfl⟩ := h
  exact ⟨after, List.drop_left⟩

/-- A part that stands somewhere can be cut out, also an empty one. -/
theorem Spells.slice? {bytes : List UInt8} {offset : Nat} {part : List UInt8}
    (h : Spells bytes offset part) :
    LittleEndian.slice? bytes offset part.length = some part := by
  obtain ⟨before, after, rfl, rfl⟩ := h
  have inside : before.length + part.length ≤ (before ++ (part ++ after)).length := by
    simp only [List.length_append]
    omega
  rw [LittleEndian.slice?, if_pos inside, List.drop_left, List.take_left]

/-! ### 64-bit words -/

namespace LittleEndian

theorem length_word (w : UInt64) : (word w).length = 8 := length_encode 8 w.toNat

theorem decode_word (w : UInt64) : (decode (word w)).toUInt64 = w := by
  have small : w.toNat % Nat.pow 256 8 = w.toNat := Nat.mod_eq_of_lt w.toNat_lt
  rw [word, decode_encode, small]
  exact UInt64.ofNat_toNat

theorem splitWord?_word_append (w : UInt64) (rest : List UInt8) :
    splitWord? (word w ++ rest) = some (w, rest) := by
  have front : (word w ++ rest).take 8 = word w := List.take_left' (length_word w)
  have back : (word w ++ rest).drop 8 = rest := List.drop_left' (length_word w)
  simp only [splitWord?, front, back, length_word, decode_word, if_true]

end LittleEndian

theorem wordBytes_cons (w : UInt64) (ws : List UInt64) :
    Adjacency.wordBytes (w :: ws) = LittleEndian.word w ++ Adjacency.wordBytes ws :=
  List.flatMap_cons

theorem wordBytes_append (front back : List UInt64) :
    Adjacency.wordBytes (front ++ back)
      = Adjacency.wordBytes front ++ Adjacency.wordBytes back :=
  List.flatMap_append

theorem length_wordBytes (ws : List UInt64) :
    (Adjacency.wordBytes ws).length = ws.length * 8 := by
  induction ws with
  | nil => rfl
  | cons w ws ih =>
    rw [wordBytes_cons, List.length_append, LittleEndian.length_word, ih, List.length_cons]
    omega

theorem wordsFrom_append (size : Nat) (ws : List UInt64) (rest : List UInt8) (offset : Nat) :
    wordsFrom size (Adjacency.wordBytes ws ++ rest) offset ws.length = .ok ws := by
  induction ws generalizing offset with
  | nil => rfl
  | cons w ws ih =>
    rw [wordBytes_cons, List.append_assoc, List.length_cons, wordsFrom,
      LittleEndian.splitWord?_word_append]
    simp only [ih, Except.map]

/-- Words are read where they stand. -/
theorem readWords_of_spells {bytes : List UInt8} {offset : Nat} {ws : List UInt64}
    (h : Spells bytes offset (Adjacency.wordBytes ws)) :
    readWords bytes offset ws.length = .ok ws := by
  obtain ⟨after, h⟩ := h.drop
  rw [readWords, h, wordsFrom_append]

/-! ### Properties -/

theorem propertyBytes_eq (ps : List Binary64) :
    Packed.propertyBytes ps = Adjacency.wordBytes (ps.map Binary64.bits) := by
  rw [Packed.propertyBytes, Adjacency.wordBytes, List.flatMap_map]

theorem propertyBytes_append (front back : List Binary64) :
    Packed.propertyBytes (front ++ back)
      = Packed.propertyBytes front ++ Packed.propertyBytes back :=
  List.flatMap_append

theorem length_propertyBytes (ps : List Binary64) :
    (Packed.propertyBytes ps).length = ps.length * 8 := by
  rw [propertyBytes_eq, length_wordBytes, List.length_map]

/-- Properties are read where they stand, bit for bit. -/
theorem readProperties_of_spells {bytes : List UInt8} {offset : Nat} {ps : List Binary64}
    (h : Spells bytes offset (Packed.propertyBytes ps)) :
    readProperties bytes offset ps.length = .ok ps := by
  rw [propertyBytes_eq] at h
  have words := readWords_of_spells h
  have back : Binary64.mk ∘ Binary64.bits = id := rfl
  rw [List.length_map] at words
  rw [readProperties, words, Except.map, List.map_map, back, List.map_id]

end NeighborGraph
