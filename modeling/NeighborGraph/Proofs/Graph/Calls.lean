import NeighborGraph.Graph.Cursor
import NeighborGraph.Proofs.Codec.AnyBytes

/-!
# Calls on a cursor, whatever its bytes

A caller mixes the calls of a cursor as it likes, also after one of them failed.  `Cursor.trace` is
what it sees: the answer to every call, and how many targets are said to be left after it.  Draining
uses the cursor up, so it only ever comes last.

The bytes of a list may be anything.  Two things hold of every cursor over them.

* `Cursor.InStep`: the counters agree with each other after any calls (`inStep_after`), so nothing is
  subtracted that is not there, and a loop over targets ends by itself (`seek_of_enough`,
  `take_cases`).
* `Cursor.Blocked`: a failed call leaves the cursor without a pending target and its decoder blocked.
  From there every call fails and the number of targets left stays what it is, so no target is ever
  handed out from behind a fault (`fails_for_good`).
-/

namespace NeighborGraph

/-- One call on a cursor. -/
inductive CursorCall
  | next
  | advance
  | item
  | seekTo (target : UInt64)
  | jump (skipped : Nat)

/-- What a call answers: a target, with its property if it was asked for, or the end. -/
inductive CursorAnswer
  | pair (entry : Option (UInt64 × Binary64))
  | target (target : Option UInt64)

namespace Cursor

/-- The answer to a call, and the cursor after it. -/
def perform (c : Cursor) : CursorCall → Except EncodingFault CursorAnswer × Cursor
  | .next => (c.next.1.map .pair, c.next.2)
  | .advance => (c.advance.1.map .target, c.advance.2)
  | .item =>
    match c.item with
    | (none, c) => (.ok (.target none), c)
    | (some (.ok target), c) => (.ok (.target (some target)), c)
    | (some (.error fault), c) => (.error fault, c)
  | .seekTo target => ((c.seekTo target).1.map .target, (c.seekTo target).2)
  | .jump skipped => ((c.jump skipped).1.map .target, (c.jump skipped).2)

/-- The answer to every call, each with the number of targets left after it. -/
def trace (c : Cursor) : List CursorCall → List (Except EncodingFault CursorAnswer × Nat)
  | [] => []
  | call :: calls => ((c.perform call).1, (c.perform call).2.remaining) :: trace (c.perform call).2 calls

/-- The cursor after some calls. -/
def after (c : Cursor) : List CursorCall → Cursor
  | [] => c
  | call :: calls => after (c.perform call).2 calls

/-- A sequence asks for its next item as any caller asks for the next target. -/
theorem perform_item (c : Cursor) : c.perform .item = c.perform .advance := by
  simp only [perform, item]
  rcases c.advance with ⟨_ | _ | _, c'⟩ <;> rfl

/-! ### Counters -/

/-- The counters of a cursor over a list of `degree` targets agree with each other. -/
structure InStep (c : Cursor) (degree : Nat) : Prop where
  total : c.decoder.degree = degree
  decoded : c.decoder.decoded ≤ degree
  flag : c.decoder.withProperties = c.withProperties
  pending : c.pending.length ≤ blockSize
  remaining : c.remaining = c.pending.length + (degree - c.decoder.decoded)

theorem inStep_start (mode : Mode) (bytes : List UInt8) (degree size : Nat)
    (withProperties : Bool) :
    (start bytes (Decoder.start mode degree size withProperties) withProperties).InStep degree := by
  cases mode <;> exact ⟨rfl, Nat.zero_le _, rfl, Nat.zero_le _, (Nat.zero_add _).symm⟩

theorem remaining_start (mode : Mode) (bytes : List UInt8) (degree size : Nat)
    (withProperties : Bool) :
    (start bytes (Decoder.start mode degree size withProperties) withProperties).remaining
      = degree := by
  cases mode <;> rfl

theorem length_pair_of_brings {d : Decoder} {withProperties : Bool} {chunk : Chunk}
    (flag : d.withProperties = withProperties) (brings : d.Brings withProperties chunk) :
    (pair withProperties chunk).length = chunk.targets.length := by
  have paired := brings.properties
  rw [flag, Bool.and_self] at paired
  cases withProperties with
  | false => simp [pair]
  | true =>
    rw [if_pos rfl] at paired
    simp [pair, paired]

/-- Filling leaves a target to hand out, unless the list is at its end. -/
theorem fill_cases {c : Cursor} {degree : Nat} (h : c.InStep degree) :
    (∃ c', c.fill = (.ok (), c') ∧ c'.InStep degree ∧ c'.remaining = c.remaining
        ∧ (c'.pending = [] → c.remaining = 0))
      ∨ ∃ fault c', c.fill = (.error fault, c') ∧ c'.InStep degree
        ∧ c'.remaining = c.remaining := by
  obtain ⟨bytes, decoder, withProperties, pending, remaining⟩ := c
  obtain ⟨total, decoded, flag, room, left⟩ := h
  dsimp only at total decoded flag room left
  cases pending with
  | cons entry rest =>
    refine .inl ⟨_, rfl, ⟨total, decoded, flag, room, left⟩, rfl, fun none => ?_⟩
    exact absurd none (List.cons_ne_nil _ _)
  | nil =>
    rw [List.length_nil, Nat.zero_add] at left
    rcases decoder.next_cases bytes withProperties with
      ⟨chunk, decoder', step, brings, counts⟩ | ⟨fault, decoder', step, counts, -⟩
    · have found := brings.targets
      rw [decoder.remaining_eq, total] at found
      have length := length_pair_of_brings flag brings
      have decoded' := counts.decoded
      refine .inl ⟨⟨bytes, decoder', withProperties, pair withProperties chunk, remaining⟩, ?_,
        ⟨counts.degree.trans total, ?_, counts.withProperties.trans flag, ?_, ?_⟩, rfl, ?_⟩
      · simp only [fill, step]
      · dsimp only
        omega
      · dsimp only
        omega
      · dsimp only
        omega
      · intro none
        dsimp only at none ⊢
        rw [none, List.length_nil] at length
        have block : blockSize = 64 := rfl
        omega
    · have decoded' := counts.decoded
      rw [Nat.add_zero] at decoded'
      refine .inr ⟨fault, ⟨bytes, decoder', withProperties, [], remaining⟩, ?_,
        ⟨counts.degree.trans total, ?_, counts.withProperties.trans flag, room, ?_⟩, rfl⟩
      · simp only [fill, step]
      · dsimp only
        omega
      · dsimp only
        rw [decoded', List.length_nil, Nat.zero_add]
        exact left

/-- A target is handed out and is then one target fewer left, or none was left, or nothing changes. -/
theorem next_cases {c : Cursor} {degree : Nat} (h : c.InStep degree) :
    (∃ entry c', c.next = (.ok (some entry), c') ∧ c'.InStep degree
        ∧ c.remaining = c'.remaining + 1)
      ∨ (∃ c', c.next = (.ok none, c') ∧ c'.InStep degree ∧ c.remaining = 0 ∧ c'.remaining = 0)
      ∨ ∃ fault c', c.next = (.error fault, c') ∧ c'.InStep degree
        ∧ c'.remaining = c.remaining := by
  rcases fill_cases h with ⟨c', filled, step, same, empty⟩ | ⟨fault, c', failed, step, same⟩
  · cases front : c'.pending with
    | nil =>
      refine .inr (.inl ⟨c', ?_, step, empty front, same.trans (empty front)⟩)
      simp only [next, filled, front]
    | cons entry rest =>
      have room := step.pending
      have left := step.remaining
      rw [front, List.length_cons] at room left
      refine .inl ⟨entry, { c' with pending := rest, remaining := c'.remaining - 1 }, ?_,
        ⟨step.total, step.decoded, step.flag, ?_, ?_⟩, ?_⟩
      · simp only [next, filled, front]
      · dsimp only
        omega
      · dsimp only
        omega
      · dsimp only
        omega
  · refine .inr (.inr ⟨fault, c', ?_, step, same⟩)
    simp only [next, failed]

theorem advance_cases {c : Cursor} {degree : Nat} (h : c.InStep degree) :
    (∃ target c', c.advance = (.ok (some target), c') ∧ c'.InStep degree
        ∧ c.remaining = c'.remaining + 1)
      ∨ (∃ c', c.advance = (.ok none, c') ∧ c'.InStep degree ∧ c.remaining = 0
        ∧ c'.remaining = 0)
      ∨ ∃ fault c', c.advance = (.error fault, c') ∧ c'.InStep degree
        ∧ c'.remaining = c.remaining := by
  rcases next_cases h with ⟨entry, c', step, rest⟩ | ⟨c', step, rest⟩ | ⟨fault, c', step, rest⟩
  · refine .inl ⟨entry.1, c', ?_, rest⟩
    rw [advance, step]
    rfl
  · refine .inr (.inl ⟨c', ?_, rest⟩)
    rw [advance, step]
    rfl
  · refine .inr (.inr ⟨fault, c', ?_, rest⟩)
    rw [advance, step]
    rfl

/-! ### Loops over targets -/

theorem inStep_seek (accept : UInt64 → Bool) {degree : Nat} (calls : Nat) {c : Cursor}
    (h : c.InStep degree) : (c.seek accept calls).2.InStep degree := by
  induction calls generalizing c with
  | zero => exact h
  | succ calls ih =>
    rcases advance_cases h with
      ⟨target, c', step, h', -⟩ | ⟨c', step, h', -⟩ | ⟨fault, c', step, h', -⟩
    · simp only [seek, step]
      split
      · exact h'
      · exact ih h'
    · simpa only [seek, step] using h'
    · simpa only [seek, step] using h'

/-- Seeking ends by itself: calls beyond those for the targets left are never made. -/
theorem seek_of_enough (accept : UInt64 → Bool) {degree calls : Nat} {c : Cursor}
    (h : c.InStep degree) (enough : c.remaining < calls) :
    c.seek accept calls = c.seek accept (c.remaining + 1) := by
  induction calls generalizing c with
  | zero => omega
  | succ calls ih =>
    rcases advance_cases h with
      ⟨target, c', step, h', left⟩ | ⟨c', step, -⟩ | ⟨fault, c', step, -⟩
    · simp only [seek, step]
      rw [ih h' (by omega), left]
    · simp only [seek, step]
    · simp only [seek, step]

theorem inStep_jump {degree : Nat} (skipped : Nat) {c : Cursor} (h : c.InStep degree) :
    (c.jump skipped).2.InStep degree := by
  induction skipped generalizing c with
  | zero =>
    rcases advance_cases h with
      ⟨target, c', step, h', -⟩ | ⟨c', step, h', -⟩ | ⟨fault, c', step, h', -⟩ <;>
    simpa only [jump, step] using h'
  | succ skipped ih =>
    rcases advance_cases h with
      ⟨target, c', step, h', -⟩ | ⟨c', step, h', -⟩ | ⟨fault, c', step, h', -⟩
    · simpa only [jump, step] using ih h'
    · simpa only [jump, step] using h'
    · simpa only [jump, step] using h'

/-- Draining hands out all targets that are left, or fails. -/
theorem take_cases {degree calls : Nat} {c : Cursor} (h : c.InStep degree)
    (enough : c.remaining < calls) :
    (∃ entries, c.take calls = .ok entries ∧ entries.length = c.remaining)
      ∨ ∃ fault, c.take calls = .error fault := by
  induction calls generalizing c with
  | zero => omega
  | succ calls ih =>
    rcases next_cases h with
      ⟨entry, c', step, h', left⟩ | ⟨c', step, -, left, -⟩ | ⟨fault, c', step, -⟩
    · rcases ih h' (by omega) with ⟨entries, rest, length⟩ | ⟨fault, failed⟩
      · refine .inl ⟨entry :: entries, ?_, by rw [List.length_cons, length, left]⟩
        simp only [take, step, rest, Except.map]
      · refine .inr ⟨fault, ?_⟩
        simp only [take, step, failed, Except.map]
    · refine .inl ⟨[], ?_, left.symm⟩
      simp only [take, step]
    · refine .inr ⟨fault, ?_⟩
      simp only [take, step]

/-- Draining ends by itself as well. -/
theorem take_of_enough {degree calls : Nat} {c : Cursor} (h : c.InStep degree)
    (enough : c.remaining < calls) : c.take calls = c.drainPairs := by
  induction calls generalizing c with
  | zero => omega
  | succ calls ih =>
    rw [drainPairs]
    rcases next_cases h with
      ⟨entry, c', step, h', left⟩ | ⟨c', step, -⟩ | ⟨fault, c', step, -⟩
    · simp only [take, step]
      rw [ih h' (by omega), drainPairs, left]
    · simp only [take, step]
    · simp only [take, step]

theorem drain_cases {degree : Nat} {c : Cursor} (h : c.InStep degree) :
    (∃ targets, c.drain = .ok targets ∧ targets.length = c.remaining)
      ∨ ∃ fault, c.drain = .error fault := by
  rcases take_cases h (Nat.lt_succ_self _) with ⟨entries, taken, length⟩ | ⟨fault, failed⟩
  · refine .inl ⟨entries.map (·.1), ?_, by rw [List.length_map, length]⟩
    rw [drain, drainPairs, taken, Except.map]
  · refine .inr ⟨fault, ?_⟩
    rw [drain, drainPairs, failed, Except.map]

/-- Who cannot get to a target cannot get to the end either. -/
theorem take_of_jump_error {skipped calls : Nat} {c c' : Cursor} {fault : EncodingFault}
    (failed : c.jump skipped = (.error fault, c')) (enough : skipped < calls) :
    c.take calls = .error fault := by
  induction skipped generalizing c calls with
  | zero =>
    obtain ⟨calls, rfl⟩ : ∃ fewer, calls = fewer + 1 := ⟨calls - 1, by omega⟩
    rcases step : c.next with ⟨_ | _, c₁⟩
    · simp only [jump, advance, step, Except.map, Prod.mk.injEq, Except.error.injEq] at failed
      simp only [take, step, failed.1]
    · simp only [jump, advance, step, Except.map, Prod.mk.injEq, reduceCtorEq, false_and] at failed
  | succ skipped ih =>
    obtain ⟨calls, rfl⟩ : ∃ fewer, calls = fewer + 1 := ⟨calls - 1, by omega⟩
    rcases step : c.next with ⟨_ | _ | entry, c₁⟩
    · simp only [jump, advance, step, Except.map, Prod.mk.injEq, Except.error.injEq] at failed
      simp only [take, step, failed.1]
    · simp [jump, advance, step, Except.map] at failed
    · simp only [jump, advance, step, Except.map, Option.map_some] at failed
      simp only [take, step, ih failed (Nat.lt_of_succ_lt_succ enough), Except.map]

theorem drain_of_jump_error {skipped : Nat} {c c' : Cursor} {fault : EncodingFault}
    (failed : c.jump skipped = (.error fault, c')) (inside : skipped < c.remaining) :
    c.drain = .error fault := by
  rw [drain, drainPairs, take_of_jump_error failed (Nat.lt_succ_of_lt inside), Except.map]

/-! ### Any calls -/

/-- One call keeps the counters in step, whatever it answers. -/
theorem inStep_perform {degree : Nat} {c : Cursor} (h : c.InStep degree) (call : CursorCall) :
    (c.perform call).2.InStep degree := by
  have advanced : (c.perform .advance).2.InStep degree := by
    rcases advance_cases h with
      ⟨target, c', step, h', -⟩ | ⟨c', step, h', -⟩ | ⟨fault, c', step, h', -⟩ <;>
    simpa only [perform, step] using h'
  cases call with
  | next =>
    rcases next_cases h with
      ⟨entry, c', step, h', -⟩ | ⟨c', step, h', -⟩ | ⟨fault, c', step, h', -⟩ <;>
    simpa only [perform, step] using h'
  | advance => exact advanced
  | item =>
    rw [perform_item]
    exact advanced
  | seekTo target => exact inStep_seek _ _ h
  | jump skipped => exact inStep_jump skipped h

/-- Any calls keep the counters in step. -/
theorem inStep_after {degree : Nat} {c : Cursor} (h : c.InStep degree) (calls : List CursorCall) :
    (c.after calls).InStep degree := by
  induction calls generalizing c with
  | nil => exact h
  | cons call calls ih => exact ih (inStep_perform h call)

/-! ### Failed calls -/

/-- Nothing is pending, and the next chunk cannot be had. -/
def Blocked (c : Cursor) : Prop :=
  c.pending = [] ∧ Decoder.Blocked c.bytes c.withProperties c.decoder

/-- A blocked cursor fails, stays blocked and has as many targets left as before. -/
theorem next_of_blocked {c : Cursor} (h : c.Blocked) :
    ∃ fault c', c.next = (.error fault, c') ∧ c'.Blocked ∧ c'.remaining = c.remaining := by
  obtain ⟨none, blocked⟩ := h
  obtain ⟨fault, decoder', failed, -, blocked'⟩ := Decoder.next_of_blocked blocked
  refine ⟨fault, { c with decoder := decoder' }, ?_, ⟨none, blocked'⟩, rfl⟩
  simp only [next, fill, none, failed]

theorem advance_of_blocked {c : Cursor} (h : c.Blocked) :
    ∃ fault c', c.advance = (.error fault, c') ∧ c'.Blocked ∧ c'.remaining = c.remaining := by
  obtain ⟨fault, c', failed, rest⟩ := next_of_blocked h
  refine ⟨fault, c', ?_, rest⟩
  rw [advance, failed]
  rfl

/-- A call that fails leaves the cursor blocked. -/
theorem blocked_of_next {c c' : Cursor} {fault : EncodingFault}
    (failed : c.next = (.error fault, c')) : c'.Blocked := by
  obtain ⟨bytes, decoder, withProperties, pending, remaining⟩ := c
  cases pending with
  | cons entry rest => simp [next, fill] at failed
  | nil =>
    rcases decoder.next_cases bytes withProperties with
      ⟨chunk, decoder', step, -⟩ | ⟨fault', decoder', step, -, blocked⟩
    · simp only [next, fill, step] at failed
      split at failed <;> simp at failed
    · simp only [next, fill, step, Prod.mk.injEq] at failed
      obtain ⟨-, rfl⟩ := failed
      exact ⟨rfl, blocked⟩

theorem blocked_of_advance {c c' : Cursor} {fault : EncodingFault}
    (failed : c.advance = (.error fault, c')) : c'.Blocked := by
  rcases step : c.next with ⟨answer, c''⟩
  rw [advance, step] at failed
  cases answer with
  | ok entry => simp [Except.map] at failed
  | error fault' =>
    obtain ⟨-, rfl⟩ := Prod.mk.inj failed
    exact blocked_of_next step

theorem blocked_of_seek (accept : UInt64 → Bool) {calls : Nat} {c c' : Cursor}
    {fault : EncodingFault} (failed : c.seek accept calls = (.error fault, c')) : c'.Blocked := by
  induction calls generalizing c with
  | zero => simp [seek] at failed
  | succ calls ih =>
    rcases step : c.advance with ⟨_ | _ | target, c''⟩
    · simp only [seek, step, Prod.mk.injEq] at failed
      obtain ⟨-, rfl⟩ := failed
      exact blocked_of_advance step
    · simp [seek, step] at failed
    · simp only [seek, step] at failed
      split at failed
      · simp at failed
      · exact ih failed

theorem blocked_of_jump {skipped : Nat} {c c' : Cursor} {fault : EncodingFault}
    (failed : c.jump skipped = (.error fault, c')) : c'.Blocked := by
  induction skipped generalizing c with
  | zero => exact blocked_of_advance failed
  | succ skipped ih =>
    rcases step : c.advance with ⟨_ | _ | target, c''⟩
    · simp only [jump, step, Prod.mk.injEq] at failed
      obtain ⟨-, rfl⟩ := failed
      exact blocked_of_advance step
    · simp [jump, step] at failed
    · simp only [jump, step] at failed
      exact ih failed

theorem take_of_blocked {c : Cursor} (h : c.Blocked) (calls : Nat) :
    ∃ fault, c.take (calls + 1) = .error fault := by
  obtain ⟨fault, c', failed, -⟩ := next_of_blocked h
  exact ⟨fault, by simp only [take, failed]⟩

/-- Every call on a blocked cursor fails, and the cursor stays as it is to its caller. -/
theorem perform_of_blocked {c : Cursor} (h : c.Blocked) (call : CursorCall) :
    ∃ fault c', c.perform call = (.error fault, c') ∧ c'.Blocked
      ∧ c'.remaining = c.remaining := by
  obtain ⟨fault, c', failed, rest⟩ := advance_of_blocked h
  have advanced : c.perform .advance = (.error fault, c') := by
    simp only [perform, failed, Except.map]
  cases call with
  | next =>
    obtain ⟨fault, c', failed, rest⟩ := next_of_blocked h
    exact ⟨fault, c', by simp only [perform, failed, Except.map], rest⟩
  | advance => exact ⟨fault, c', advanced, rest⟩
  | item => exact ⟨fault, c', by rw [perform_item, advanced], rest⟩
  | seekTo target =>
    exact ⟨fault, c', by simp only [perform, seekTo, seek, failed, Except.map], rest⟩
  | jump skipped =>
    cases skipped with
    | zero => exact ⟨fault, c', advanced, rest⟩
    | succ skipped => exact ⟨fault, c', by simp only [perform, jump, failed, Except.map], rest⟩

/-- Only a fault of the loop beneath a call makes the call fail. -/
theorem blocked_of_map {α : Type} {answer : α → CursorAnswer}
    {step : Except EncodingFault α × Cursor} {c' : Cursor} {fault : EncodingFault}
    (sticks : ∀ fault, step = (.error fault, step.2) → step.2.Blocked)
    (failed : (step.1.map answer, step.2) = (.error fault, c')) : c'.Blocked := by
  obtain ⟨answered, c''⟩ := step
  obtain ⟨refused, rfl⟩ := Prod.mk.inj failed
  cases answered with
  | ok _ => simp [Except.map] at refused
  | error fault => exact sticks fault rfl

/-- A failed call leaves the cursor blocked. -/
theorem blocked_of_perform {c c' : Cursor} {call : CursorCall} {fault : EncodingFault}
    (failed : c.perform call = (.error fault, c')) : c'.Blocked := by
  cases call with
  | next => exact blocked_of_map (fun _ => blocked_of_next) failed
  | advance => exact blocked_of_map (fun _ => blocked_of_advance) failed
  | item =>
    rw [perform_item] at failed
    exact blocked_of_map (fun _ => blocked_of_advance) failed
  | seekTo target => exact blocked_of_map (fun _ => blocked_of_seek _) failed
  | jump skipped => exact blocked_of_map (fun _ => blocked_of_jump) failed

/-- A call that did not answer. -/
def Failed (entry : Except EncodingFault CursorAnswer × Nat) : Prop :=
  ∃ fault, entry.1 = .error fault

/-- Behind a fault every call fails and as many targets are left as before. -/
theorem trace_of_blocked {c : Cursor} (h : c.Blocked) (calls : List CursorCall) :
    (∀ entry ∈ c.trace calls, Failed entry ∧ entry.2 = c.remaining)
      ∧ (c.after calls).Blocked := by
  induction calls generalizing c with
  | nil => exact ⟨fun entry member => absurd member List.not_mem_nil, h⟩
  | cons call calls ih =>
    obtain ⟨fault, c', failed, h', same⟩ := perform_of_blocked h call
    obtain ⟨later, blocked⟩ := ih h'
    rw [trace, after, failed]
    refine ⟨?_, blocked⟩
    intro entry member
    rcases List.mem_cons.mp member with rfl | member
    · exact ⟨⟨fault, rfl⟩, same⟩
    · obtain ⟨fails, left⟩ := later entry member
      exact ⟨fails, left.trans same⟩

/-- The first failed call blocks the cursor for all calls after it. -/
theorem trace_fails_on (c : Cursor) (calls : List CursorCall) :
    (c.trace calls).Pairwise (fun earlier later => Failed earlier →
        Failed later ∧ later.2 = earlier.2)
      ∧ ((∃ entry ∈ c.trace calls, Failed entry) → (c.after calls).Blocked) := by
  induction calls generalizing c with
  | nil =>
    refine ⟨List.Pairwise.nil, ?_⟩
    rintro ⟨entry, member, -⟩
    exact absurd member List.not_mem_nil
  | cons call calls ih =>
    obtain ⟨among, behind⟩ := ih (c.perform call).2
    have sticks : Failed ((c.perform call).1, (c.perform call).2.remaining) →
        (c.perform call).2.Blocked := by
      rintro ⟨fault, failed⟩
      exact blocked_of_perform (Prod.ext failed rfl)
    rw [trace, after, List.pairwise_cons]
    refine ⟨⟨?_, among⟩, ?_⟩
    · intro later member failed
      exact (trace_of_blocked (sticks failed) calls).1 later member
    · rintro ⟨entry, member, failed⟩
      rcases List.mem_cons.mp member with rfl | member
      · exact (trace_of_blocked (sticks failed) calls).2
      · exact behind ⟨entry, member, failed⟩

/-- Over any bytes, degree and mode: once a call has failed, every later call fails and the number of
targets left stays the same, and so draining the cursor at the end fails as well. -/
theorem fails_for_good (mode : Mode) (bytes : List UInt8) (degree : Nat) (withProperties : Bool)
    (calls : List CursorCall) :
    let c := start bytes (Decoder.start mode degree bytes.length withProperties) withProperties
    (c.trace calls).Pairwise (fun earlier later => Failed earlier →
        Failed later ∧ later.2 = earlier.2)
      ∧ ((∃ entry ∈ c.trace calls, Failed entry) →
          ∃ fault, (c.after calls).drain = .error fault) := by
  intro c
  obtain ⟨among, behind⟩ := trace_fails_on c calls
  refine ⟨among, fun some => ?_⟩
  obtain ⟨fault, failed⟩ := take_of_blocked (behind some) (c.after calls).remaining
  exact ⟨fault, by rw [drain, drainPairs, failed, Except.map]⟩

end Cursor

end NeighborGraph
