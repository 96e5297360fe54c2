import NeighborGraph.Graph.Cursor
import NeighborGraph.Proofs.Codec.RoundTrip

/-!
# Cursors walk the whole list

`Cursor.Holds` says which relationships a cursor has still to hand out: those it has decoded already,
and behind them those its decoder stands before.  `Cursor.next` hands out the first of them
(`next_cons_of_holds`) and nothing at the end (`next_nil_of_holds`), whether or not it has to decode a
chunk for that.

Every other operation is a loop around `next`.  What it yields is therefore a list function of the
relationships ahead, and the cursor behind it has ahead what that function leaves.  This asks nothing
of a cursor but that `next` walks along a list, so it is stated for every such description of cursors
(`Cursor.Walk`).
-/

namespace NeighborGraph

namespace Cursor

/-- The cursor has still to hand out `entries`. -/
structure Holds (c : Cursor) (entries : List (UInt64 × Binary64)) : Prop where
  ahead : ∃ targets properties, Decoder.Stands c.bytes c.decoder targets properties
    ∧ properties.length = (if c.withProperties then targets.length else 0)
    ∧ entries = c.pending ++ pair c.withProperties ⟨targets, properties⟩
  left : c.remaining = entries.length

/-! ### Chunks as relationships -/

theorem pair_append (withProperties : Bool) {targets : List UInt64} {properties : List Binary64}
    (count : Nat) :
    pair withProperties ⟨targets, properties⟩
      = pair withProperties ⟨targets.take count, properties.take count⟩
        ++ pair withProperties ⟨targets.drop count, properties.drop count⟩ := by
  cases withProperties with
  | false =>
    simp only [pair, Bool.false_eq_true, if_false]
    rw [← List.map_append, List.take_append_drop]
  | true =>
    simp only [pair, if_true, List.zip]
    rw [← List.take_zipWith, ← List.drop_zipWith, List.take_append_drop]

/-- A chunk without room for properties stands for the same relationships when the list has none. -/
theorem pair_buffered (withProperties : Bool) (targets : List UInt64)
    (properties : List Binary64) :
    pair withProperties ⟨targets, if withProperties then properties else []⟩
      = pair withProperties ⟨targets, properties⟩ := by
  cases withProperties <;> rfl

theorem length_pair {withProperties : Bool} {targets : List UInt64} {properties : List Binary64}
    (paired : properties.length = if withProperties then targets.length else 0) :
    (pair withProperties ⟨targets, properties⟩).length = targets.length := by
  cases withProperties with
  | false =>
    simp only [pair, Bool.false_eq_true, if_false]
    exact List.length_map _
  | true =>
    rw [if_pos rfl] at paired
    simp only [pair, if_true]
    rw [List.length_zip, paired, Nat.min_self]

/-! ### One relationship -/

/-- Filling hands out nothing, and leaves something to hand out unless the list is at its end. -/
theorem fill_of_holds {c : Cursor} {entries : List (UInt64 × Binary64)} (h : c.Holds entries) :
    ∃ c', c.fill = (.ok (), c') ∧ c'.Holds entries ∧ (c'.pending = [] → entries = []) := by
  obtain ⟨bytes, decoder, withProperties, pending, remaining⟩ := c
  obtain ⟨⟨targets, properties, stands, paired, whole⟩, left⟩ := h
  dsimp only at stands paired whole left
  cases pending with
  | cons entry rest =>
    refine ⟨⟨bytes, decoder, withProperties, entry :: rest, remaining⟩, rfl, ?_, ?_⟩
    · exact ⟨⟨targets, properties, stands, paired, whole⟩, left⟩
    · intro none
      exact absurd none (List.cons_ne_nil _ _)
  | nil =>
    obtain ⟨decoder', step, others⟩ := Decoder.next_of_stands stands withProperties
    have front := BlockDecoder.paired_take paired
    refine ⟨⟨bytes, decoder', withProperties,
      pair withProperties ⟨targets.take blockSize, properties.take blockSize⟩, remaining⟩,
      ?_, ⟨⟨targets.drop blockSize, properties.drop blockSize, others,
        BlockDecoder.paired_drop paired, ?_⟩, left⟩, ?_⟩
    · simp only [fill, step, pair_buffered]
    · rw [whole, List.nil_append]
      exact pair_append withProperties blockSize
    · intro none
      have short : (targets.take blockSize).length = 0 :=
        (length_pair front).symm.trans (congrArg List.length none)
      have empty : targets.length = 0 := by
        rw [List.length_take, blockSize] at short
        omega
      have nothing := length_pair paired
      rw [empty] at nothing
      rw [whole, List.nil_append]
      exact List.length_eq_zero_iff.mp nothing

/-- The relationship ahead is handed out. -/
theorem next_cons_of_holds {c : Cursor} {entry : UInt64 × Binary64}
    {entries : List (UInt64 × Binary64)} (h : c.Holds (entry :: entries)) :
    ∃ c', c.next = (.ok (some entry), c') ∧ c'.Holds entries := by
  obtain ⟨c', filled, ⟨⟨targets, properties, stands, paired, whole⟩, left⟩, some⟩ :=
    fill_of_holds h
  cases front : c'.pending with
  | nil => exact absurd (some front) (List.cons_ne_nil _ _)
  | cons entry' rest =>
    rw [front, List.cons_append, List.cons.injEq] at whole
    obtain ⟨rfl, behind⟩ := whole
    refine ⟨{ c' with pending := rest, remaining := c'.remaining - 1 }, ?_, ?_⟩
    · simp only [next, filled, front]
    · refine ⟨⟨targets, properties, stands, paired, behind⟩, ?_⟩
      rw [List.length_cons] at left
      show c'.remaining - 1 = entries.length
      omega

/-- At the end nothing is handed out. -/
theorem next_nil_of_holds {c : Cursor} (h : c.Holds []) :
    ∃ c', c.next = (.ok none, c') ∧ c'.Holds [] := by
  obtain ⟨c', filled, held, -⟩ := fill_of_holds h
  refine ⟨c', ?_, held⟩
  obtain ⟨⟨targets, properties, -, -, whole⟩, -⟩ := held
  have none : c'.pending = [] := (List.append_eq_nil_iff.mp whole.symm).1
  simp only [next, filled, none]

/-! ### Walks -/

/-- A description of what cursors have still to hand out that `next` follows: it hands out the first
relationship and leaves the others, and at the end it hands out nothing. -/
structure Walk (ahead : Cursor → List (UInt64 × Binary64) → Prop) : Prop where
  left : ∀ {c : Cursor} {entries : List (UInt64 × Binary64)},
    ahead c entries → c.remaining = entries.length
  next_cons : ∀ {c : Cursor} {entry : UInt64 × Binary64} {entries : List (UInt64 × Binary64)},
    ahead c (entry :: entries) → ∃ c', c.next = (.ok (some entry), c') ∧ ahead c' entries
  next_nil : ∀ {c : Cursor}, ahead c [] → ∃ c', c.next = (.ok none, c') ∧ ahead c' []

theorem walk_holds : Walk Holds where
  left h := h.left
  next_cons := next_cons_of_holds
  next_nil := next_nil_of_holds

namespace Walk

variable {ahead : Cursor → List (UInt64 × Binary64) → Prop} (walk : Walk ahead)

include walk

theorem advance_cons {c : Cursor} {entry : UInt64 × Binary64}
    {entries : List (UInt64 × Binary64)} (h : ahead c (entry :: entries)) :
    ∃ c', c.advance = (.ok (some entry.1), c') ∧ ahead c' entries := by
  obtain ⟨c', step, rest⟩ := walk.next_cons h
  refine ⟨c', ?_, rest⟩
  rw [advance, step]
  rfl

theorem advance_nil {c : Cursor} (h : ahead c []) :
    ∃ c', c.advance = (.ok none, c') ∧ ahead c' [] := by
  obtain ⟨c', step, rest⟩ := walk.next_nil h
  refine ⟨c', ?_, rest⟩
  rw [advance, step]
  rfl

/-- Seeking finds the first target that is accepted, and goes on behind it. -/
theorem seek (accept : UInt64 → Bool) {c : Cursor} {entries : List (UInt64 × Binary64)}
    (h : ahead c entries) {calls : Nat} (enough : entries.length < calls) :
    ∃ c', c.seek accept calls = (.ok ((entries.map (·.1)).find? accept), c')
      ∧ ahead c' (entries.dropWhile fun entry => !accept entry.1).tail := by
  induction entries generalizing c calls with
  | nil =>
    cases calls with
    | zero => exact absurd enough (Nat.not_lt_zero _)
    | succ calls =>
      obtain ⟨c', step, rest⟩ := walk.advance_nil h
      refine ⟨c', ?_, rest⟩
      rw [Cursor.seek, step]
      rfl
  | cons entry entries ih =>
    cases calls with
    | zero => exact absurd enough (Nat.not_lt_zero _)
    | succ calls =>
      obtain ⟨c', step, rest⟩ := walk.advance_cons h
      cases found : accept entry.1 with
      | true =>
        refine ⟨c', ?_, ?_⟩
        · rw [Cursor.seek, step, List.map_cons, List.find?_cons_of_pos found]
          simp only [found, if_true]
        · rw [List.dropWhile_cons_of_neg (by rw [found]; decide)]
          exact rest
      | false =>
        obtain ⟨c'', later, behind⟩ := ih rest (Nat.lt_of_succ_lt_succ enough)
        refine ⟨c'', ?_, ?_⟩
        · rw [Cursor.seek, step, List.map_cons, List.find?_cons_of_neg (by rw [found]; decide)]
          simp only [found, Bool.false_eq_true, if_false, later]
        · rw [List.dropWhile_cons_of_pos (by rw [found]; rfl)]
          exact behind

theorem seekTo {c : Cursor} {entries : List (UInt64 × Binary64)} (h : ahead c entries)
    (target : UInt64) :
    ∃ c', c.seekTo target
        = (.ok ((entries.map (·.1)).find? fun t => decide (target ≤ t)), c')
      ∧ ahead c' (entries.dropWhile fun entry => !decide (target ≤ entry.1)).tail := by
  rw [Cursor.seekTo, walk.left h]
  exact walk.seek _ h (Nat.lt_succ_self _)

/-- A jump lands on the target at an index, if there is one. -/
theorem jump {c : Cursor} {entries : List (UInt64 × Binary64)} (h : ahead c entries)
    (skipped : Nat) :
    ∃ c', c.jump skipped = (.ok (entries.map (·.1))[skipped]?, c')
      ∧ ahead c' (entries.drop (skipped + 1)) := by
  induction entries generalizing c skipped with
  | nil =>
    obtain ⟨c', step, rest⟩ := walk.advance_nil h
    refine ⟨c', ?_, rest⟩
    cases skipped with
    | zero => exact step
    | succ skipped =>
      rw [Cursor.jump, step]
      rfl
  | cons entry entries ih =>
    obtain ⟨c', step, rest⟩ := walk.advance_cons h
    cases skipped with
    | zero => exact ⟨c', step, rest⟩
    | succ skipped =>
      obtain ⟨c'', later, behind⟩ := ih rest skipped
      refine ⟨c'', ?_, behind⟩
      rw [Cursor.jump, step]
      simp only [later]
      rfl

theorem take {c : Cursor} {entries : List (UInt64 × Binary64)} (h : ahead c entries) {calls : Nat}
    (enough : entries.length < calls) : c.take calls = .ok entries := by
  induction entries generalizing c calls with
  | nil =>
    cases calls with
    | zero => exact absurd enough (Nat.not_lt_zero _)
    | succ calls =>
      obtain ⟨c', step, -⟩ := walk.next_nil h
      rw [Cursor.take, step]
  | cons entry entries ih =>
    cases calls with
    | zero => exact absurd enough (Nat.not_lt_zero _)
    | succ calls =>
      obtain ⟨c', step, rest⟩ := walk.next_cons h
      rw [Cursor.take, step]
      simp only [ih rest (Nat.lt_of_succ_lt_succ enough), Except.map]

/-- Draining hands out everything. -/
theorem drainPairs {c : Cursor} {entries : List (UInt64 × Binary64)} (h : ahead c entries) :
    c.drainPairs = .ok entries := by
  rw [Cursor.drainPairs, walk.left h, walk.take h (Nat.lt_succ_self _)]

theorem drain {c : Cursor} {entries : List (UInt64 × Binary64)} (h : ahead c entries) :
    c.drain = .ok (entries.map (·.1)) := by
  rw [Cursor.drain, walk.drainPairs h, Except.map]

end Walk

theorem drain_of_holds {c : Cursor} {entries : List (UInt64 × Binary64)} (h : c.Holds entries) :
    c.drain = .ok (entries.map (·.1)) := walk_holds.drain h

/-! ### New cursors -/

/-- A new cursor holds what its decoder stands before. -/
theorem holds_start {bytes : List UInt8} {decoder : Decoder} {withProperties : Bool}
    {targets : List UInt64} {properties : List Binary64}
    (stands : Decoder.Stands bytes decoder targets properties)
    (paired : properties.length = if withProperties then targets.length else 0) :
    (start bytes decoder withProperties).Holds (pair withProperties ⟨targets, properties⟩) := by
  refine ⟨⟨targets, properties, stands, paired, rfl⟩, ?_⟩
  rw [length_pair paired]
  exact stands.remaining

end Cursor

end NeighborGraph
