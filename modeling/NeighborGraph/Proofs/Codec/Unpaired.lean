import NeighborGraph.Proofs.Codec.RoundTrip

/-!
# Targets and properties that do not pair up

No list is written unless it has as many properties as targets.  The packed modes compare the two numbers
and refuse the call; the other modes leave the promise to the aggregation, which crashes when it is broken
(`encode_unpaired`).
-/

namespace NeighborGraph.Adjacency

variable {targets : List UInt64} {properties : List Binary64}

theorem reducePaired_of_unpaired (aggregation : Aggregation)
    (different : targets.length ≠ properties.length) :
    aggregation.reducePaired targets properties
      = .error (.crash (.unequal targets.length properties.length)) := if_neg different

/-- A mode that does not compare the numbers leaves it to the aggregation. -/
theorem encode_of_pairing {mode : Mode} (pairing : mode = .plain ∨ mode = .varLong)
    (aggregation : Aggregation) :
    encode mode aggregation targets (some properties)
      = (aggregation.reducePaired targets properties).map fun pairs =>
          ⟨bytesOf mode (pairs.map (·.1)) (pairs.map (·.2)), pairs.map (·.1),
            some (pairs.map (·.2))⟩ := by
  rcases pairing with rfl | rfl
  · simp [encode]
  · simp [encode]

/-- Targets and properties of different numbers, with any aggregation: every packed mode refuses them and
names both numbers, and every other mode crashes.  So no mode drops a target, and none writes a list. -/
theorem encode_unpaired (aggregation : Aggregation)
    (different : targets.length ≠ properties.length) :
    (∀ tail, encode (.packed tail) aggregation targets (some properties)
        = .error (.invalidArgument (.unpairedProperties targets.length properties.length)))
      ∧ (∀ mode, mode = .plain ∨ mode = .varLong →
          encode mode aggregation targets (some properties)
            = .error (.crash (.unequal targets.length properties.length)))
      ∧ ∀ mode e, encode mode aggregation targets (some properties) ≠ .ok e := by
  have refuses (tail : Tail) : encode (.packed tail) aggregation targets (some properties)
      = .error (.invalidArgument (.unpairedProperties targets.length properties.length)) :=
    if_pos ⟨rfl, different⟩
  have crashes (mode : Mode) (pairing : mode = .plain ∨ mode = .varLong) :
      encode mode aggregation targets (some properties)
        = .error (.crash (.unequal targets.length properties.length)) := by
    rw [encode_of_pairing pairing, reducePaired_of_unpaired aggregation different]
    rfl
  refine ⟨refuses, crashes, fun mode e succeeds => ?_⟩
  cases mode with
  | plain => cases (crashes .plain (.inl rfl)).symm.trans succeeds
  | varLong => cases (crashes .varLong (.inr rfl)).symm.trans succeeds
  | packed tail => cases (refuses tail).symm.trans succeeds

/-- Three targets and one property, in a packed mode and in one that leaves the pairing unchecked. -/
theorem encode_unpaired_of_three :
    ([9, 4, 9] : List UInt64).length ≠ ([.one] : List Binary64).length
      ∧ encode (.packed .aligned) .none [9, 4, 9] (some [.one])
        = .error (.invalidArgument (.unpairedProperties 3 1))
      ∧ encode .plain .sum [9, 4, 9] (some [.one]) = .error (.crash (.unequal 3 1)) := by
  have different : ([9, 4, 9] : List UInt64).length ≠ ([.one] : List Binary64).length := by decide
  exact ⟨different, (encode_unpaired .none different).1 .aligned,
    (encode_unpaired .sum different).2.1 .plain (.inl rfl)⟩

/-- Two targets and one property: a crash in one mode, a refusal in another. -/
theorem unpaired_target_crashes :
    encode .varLong .none [5, 2] (some [.one]) = .error (.crash (.unequal 2 1))
      ∧ encode (.packed .varLong) .none [5, 2] (some [.one])
        = .error (.invalidArgument (.unpairedProperties 2 1)) :=
  ⟨rfl, rfl⟩

end NeighborGraph.Adjacency
