import NeighborGraph.Proofs.Codec.StreamWords

/-!
# After a fault in a delta stream

A call that fails keeps the offset it was given and has added the steps of the words before the fault to
the running total.  What they add up to is the drift of the position (`totalOf_eq_add`).  The bytes are
read again from the same offset, so a second call takes the same words (`taken_front`), and every total
it writes is off by the drift (`failed_read_drifts`).
-/

namespace NeighborGraph.DeltaStream

/-! ### Totals from another start -/

/-- A total is where it starts from and what the steps add up to. -/
theorem totalOf_eq_add (running : UInt64) (words : List UInt64) :
    totalOf running words = running + totalOf 0 words := by
  simp [totalOf, UInt64.ofInt_add, ofInt_toNat]

/-- Totals move with their start. -/
theorem totals_add (running drift : UInt64) (words : List UInt64) :
    totals (running + drift) words = (totals running words).map (· + drift) := by
  have each : ∀ i, totalOf (running + drift) (words.take (i + 1))
      = totalOf running (words.take (i + 1)) + drift := by
    intro i
    rw [totalOf_eq_add, totalOf_eq_add running, UInt64.add_assoc, UInt64.add_assoc,
      UInt64.add_comm drift]
  simp [totals, each]

/-! ### The words before a fault -/

/-- A call that asks for no more than the words before a fault takes the first of them. -/
theorem taken_front {bytes : List UInt8} {slots offset count : Nat}
    (before : count ≤ (taken bytes slots offset).words.length) :
    ∃ stop, taken bytes count offset
      = ⟨(taken bytes slots offset).words.take count, stop, none⟩ := by
  induction count generalizing slots offset with
  | zero => exact ⟨offset, rfl⟩
  | succ count ih =>
    cases slots with
    | zero => cases before
    | succ slots =>
      by_cases left : offset < bytes.length
      · rw [taken, if_pos left] at before ⊢
        rw [taken, if_pos left]
        cases first : readVarLong bytes offset with
        | error fault =>
          rw [first] at before
          cases before
        | ok read =>
          obtain ⟨word, used⟩ := read
          rw [first] at before
          obtain ⟨stop, rest⟩ := ih (Nat.le_of_succ_le_succ before)
          exact ⟨stop, by simp only [rest, Taken.cons, List.take_succ_cons]⟩
      · rw [taken_at_end left] at before
        cases before

/-! ### Trying again -/

/-- What a call for some of the words before a fault brings, from any total. -/
theorem read_front (map : UInt64 → UInt64) {bytes : List UInt8} {limit : Nat}
    (inside : limit ≤ bytes.length) {slots offset count : Nat}
    (before : count ≤ (taken (bytes.take limit) slots offset).words.length) (running : UInt64) :
    (read map bytes limit ⟨offset, running⟩ count).outcome = .ok count
      ∧ (read map bytes limit ⟨offset, running⟩ count).written
          = (totals running ((taken (bytes.take limit) slots offset).words.take count)).map map := by
  obtain ⟨stop, front⟩ := taken_front before
  rw [read_eq map inside, front]
  simp [Taken.reading, before]

/-- What a call that fails inside the limit leaves: the totals up to the fault, and its own total moved
by the words before it. -/
theorem read_failed (map : UInt64 → UInt64) {bytes : List UInt8} {limit : Nat}
    (inside : limit ≤ bytes.length) {position : Position} {slots : Nat} {fault : EncodingFault}
    (failed : (read map bytes limit position slots).outcome = .error fault) :
    let words := (taken (bytes.take limit) slots position.offset).words
    (read map bytes limit position slots).written = (totals position.running words).map map
      ∧ (read map bytes limit position slots).position
          = ⟨position.offset, position.running + totalOf 0 words⟩ := by
  have reads := read_eq map inside position slots
  have stopped : (taken (bytes.take limit) slots position.offset).fault.isSome := by
    rw [reads] at failed
    cases clean : (taken (bytes.take limit) slots position.offset).fault with
    | some fault => rfl
    | none => simp [Taken.reading, clean] at failed
  constructor
  · rw [reads, Taken.reading]
  · rw [reads, Taken.reading, if_pos stopped, totalOf_eq_add]

/-- A call that fails leaves the offset as it was.  Where the limit lies beyond the bytes, that is all
it does.  Otherwise it has written the totals of the words before the fault and moved its own total by
the drift, their sum; so the position is what it was exactly if their steps cancel out.  A call from
there for no more than these words takes them again, and writes each total with the drift added. -/
theorem failed_read_drifts (map : UInt64 → UInt64) {bytes : List UInt8} {limit : Nat}
    {position : Position} {slots : Nat} {fault : EncodingFault}
    (failed : (read map bytes limit position slots).outcome = .error fault) :
    let r := read map bytes limit position slots
    let words := (taken (bytes.take limit) slots position.offset).words
    let drift := totalOf 0 words
    r.position.offset = position.offset
      ∧ (bytes.length < limit → r.written = [] ∧ r.position = position)
      ∧ (limit ≤ bytes.length →
          r.written = (totals position.running words).map map
            ∧ r.position.running = position.running + drift
            ∧ (r.position = position ↔ drift = 0)
            ∧ ∀ count ≤ words.length,
                (read map bytes limit position count).outcome = .ok count
                  ∧ (read map bytes limit position count).written
                      = (totals position.running (words.take count)).map map
                  ∧ (read map bytes limit r.position count).outcome = .ok count
                  ∧ (read map bytes limit r.position count).written
                      = (totals position.running (words.take count)).map fun total =>
                          map (total + drift)) := by
  intro r words drift
  by_cases beyond : bytes.length < limit
  · have refused : r = ⟨[], position, .error (.limitBeyondBuffer limit bytes.length)⟩ := by
      show read map bytes limit position slots = _
      rw [read, if_pos beyond]
    rw [refused]
    exact ⟨rfl, fun _ => ⟨rfl, rfl⟩, fun inside => absurd beyond (Nat.not_lt.mpr inside)⟩
  · have inside : limit ≤ bytes.length := Nat.le_of_not_lt beyond
    obtain ⟨written, moved⟩ : r.written = (totals position.running words).map map
        ∧ r.position = ⟨position.offset, position.running + drift⟩ := read_failed map inside failed
    refine ⟨by rw [moved], fun outside => absurd outside beyond,
      fun _ => ⟨written, by rw [moved], ?_, ?_⟩⟩
    · rw [moved]
      constructor
      · intro same
        have total := congrArg Position.running same
        simpa using total
      · intro none
        rw [none, UInt64.add_zero]
    · intro count before
      obtain ⟨outcome, first⟩ := read_front map inside before position.running
      obtain ⟨outcome', second⟩ := read_front map inside before (position.running + drift)
      rw [totals_add, List.map_map] at second
      rw [moved]
      exact ⟨outcome, first, outcome', second⟩

/-- Two words, and a third one that lacks its end: the second attempt, for the first of them, is off by
both. -/
theorem failed_read_drifts_unterminated :
    (read id [0x8a, 0x84, 0x05] 3 {} 3).outcome = .error (.unterminatedVarLong 2)
      ∧ (read id [0x8a, 0x84, 0x05] 3 {} 3).position.running = 0 + 7
      ∧ (read id [0x8a, 0x84, 0x05] 3 (read id [0x8a, 0x84, 0x05] 3 {} 3).position 1).written
          = [12] := by
  have failed : (read id [0x8a, 0x84, 0x05] 3 {} 3).outcome = .error (.unterminatedVarLong 2) := rfl
  obtain ⟨-, -, drifts⟩ := failed_read_drifts id failed
  obtain ⟨-, total, -, retry⟩ := drifts (by decide)
  obtain ⟨-, -, -, written⟩ := retry 1 (by decide)
  exact ⟨failed, total, written⟩

/-- A call that fails does not leave the position as it found it: trying again with one slot, which ends
before the fault, brings ten in place of five. -/
theorem retry_counts_twice :
    ∃ fault, (read id [0x8a, 0x05] 2 {} 2).outcome = .error fault
      ∧ (read id [0x8a, 0x05] 2 {} 2).position ≠ {}
      ∧ (read id [0x8a, 0x05] 2 {} 1).written = [5]
      ∧ (read id [0x8a, 0x05] 2 (read id [0x8a, 0x05] 2 {} 2).position 1).written = [10] :=
  ⟨.unterminatedVarLong 1, by rfl, by decide, by rfl, by rfl⟩

end NeighborGraph.DeltaStream
