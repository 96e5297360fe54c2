import NeighborGraph.Proofs.Codec.DeltaStream
import NeighborGraph.Proofs.Codec.Spelling

/-!
# Delta streams, word by word

A delta stream is read by a loop of its own, byte by byte, in chunks of any size.  `DeltaStream.taken`
is what it amounts to: var-longs taken one at a time with `readVarLong`, until the slots are full or
nothing is left.

`read_eq` says what a call does in terms of the words so taken, on any bytes: it writes their running
totals, it moves behind the last of them, and a word that cannot be read stops it.  Totals are sums of
signed steps modulo 2^64 (`totalOf`).  Everything else is a fact about `taken`:

* `taken_add` — words taken in two goes are the words taken in one, so that chunks of any sizes bring
  what one call for all of them brings (`readChunks_agrees`);
* `taken_whole_iff` — all of the bytes are taken exactly if they are a sequence of spelled words.
-/

namespace NeighborGraph.DeltaStream

/-! ### Running totals -/

/-- The total after some words: the sum of their signed steps, modulo 2^64. -/
def totalOf (running : UInt64) (words : List UInt64) : UInt64 :=
  UInt64.ofInt (running.toNat + (words.map fun word => (ZigZag.decode word).toInt).sum)

/-- The total after each of some words. -/
def totals (running : UInt64) (words : List UInt64) : List UInt64 :=
  (List.range words.length).map fun i => totalOf running (words.take (i + 1))

theorem ofInt_toNat (word : UInt64) : UInt64.ofInt word.toNat = word := by
  apply UInt64.toNat_inj.mp
  have small := word.toNat_lt
  simp only [UInt64.ofInt, UInt64.toNat_ofNat']
  omega

theorem ofInt_toInt (step : Int64) : UInt64.ofInt step.toInt = step.toUInt64 := by
  apply UInt64.toNat_inj.mp
  have small : step.toBitVec.toNat < 2 ^ 64 := step.toBitVec.isLt
  have value : step.toInt = if 2 * step.toBitVec.toNat < 2 ^ 64 then (step.toBitVec.toNat : Int)
      else step.toBitVec.toNat - (2 ^ 64 : Nat) := BitVec.toInt_eq_toNat_cond ..
  have word : step.toUInt64.toNat = step.toBitVec.toNat := rfl
  simp only [UInt64.ofInt, UInt64.toNat_ofNat', value, word]
  split <;> omega

theorem totalOf_nil (running : UInt64) : totalOf running [] = running := by
  simp [totalOf, ofInt_toNat]

theorem totalOf_cons (running word : UInt64) (words : List UInt64) :
    totalOf running (word :: words) = totalOf (advance running word) words := by
  simp only [totalOf, advance, List.map_cons, List.sum_cons, UInt64.ofInt_add, ofInt_toNat,
    ofInt_toInt, UInt64.add_assoc]

theorem totals_cons (running word : UInt64) (words : List UInt64) :
    totals running (word :: words)
      = advance running word :: totals (advance running word) words := by
  simp only [totals, List.length_cons, List.range_succ_eq_map, List.map_cons, List.map_map,
    List.take_succ_cons, totalOf_cons, List.take_zero, totalOf_nil, Function.comp_def]

theorem totalOf_append (running : UInt64) (front back : List UInt64) :
    totalOf running (front ++ back) = totalOf (totalOf running front) back := by
  induction front generalizing running with
  | nil => rw [List.nil_append, totalOf_nil]
  | cons word front ih => rw [List.cons_append, totalOf_cons, totalOf_cons, ih]

theorem totals_append (running : UInt64) (front back : List UInt64) :
    totals running (front ++ back)
      = totals running front ++ totals (totalOf running front) back := by
  induction front generalizing running with
  | nil => rw [List.nil_append, totalOf_nil]; rfl
  | cons word front ih =>
    rw [List.cons_append, totals_cons, totals_cons, totalOf_cons, ih, List.cons_append]

/-! ### One word at a time -/

/-- Words that were taken one at a time: where the next one starts, and why there is none when it
could not be read. -/
structure Taken where
  words : List UInt64
  stop : Nat
  fault : Option EncodingFault

/-- Puts a word in front. -/
def Taken.cons (word : UInt64) (t : Taken) : Taken := { t with words := word :: t.words }

/-- Goes on where the words so far stopped, unless a fault stopped them. -/
def Taken.andThen (t : Taken) (next : Nat → Taken) : Taken :=
  match t.fault with
  | some _ => t
  | none => { next t.stop with words := t.words ++ (next t.stop).words }

/-- Reads up to `slots` var-longs one after the other, until none of the bytes is left. -/
def taken (bytes : List UInt8) : (slots offset : Nat) → Taken
  | 0, offset => ⟨[], offset, none⟩
  | slots + 1, offset =>
    if offset < bytes.length then
      match readVarLong bytes offset with
      | .error fault => ⟨[], offset, some fault⟩
      | .ok (word, used) => (taken bytes slots (offset + used)).cons word
    else ⟨[], offset, none⟩

theorem taken_at_end {bytes : List UInt8} {offset : Nat} (done : ¬offset < bytes.length)
    (slots : Nat) : taken bytes slots offset = ⟨[], offset, none⟩ := by
  cases slots with
  | zero => rfl
  | succ slots => rw [taken, if_neg done]

theorem andThen_cons (word : UInt64) (t : Taken) (next : Nat → Taken) :
    (t.cons word).andThen next = (t.andThen next).cons word := by
  obtain ⟨words, stop, fault⟩ := t
  cases fault <;> rfl

/-- Words taken in two goes are the words taken in one. -/
theorem taken_add (bytes : List UInt8) (first second offset : Nat) :
    taken bytes (first + second) offset
      = (taken bytes first offset).andThen (taken bytes second) := by
  induction first generalizing offset with
  | zero => simp [taken, Taken.andThen]
  | succ first ih =>
    by_cases left : offset < bytes.length
    · rw [Nat.add_right_comm, taken, taken, if_pos left, if_pos left]
      cases readVarLong bytes offset with
      | error fault => rfl
      | ok read =>
        obtain ⟨word, used⟩ := read
        show (taken bytes (first + second) (offset + used)).cons word
          = ((taken bytes first (offset + used)).cons word).andThen (taken bytes second)
        rw [ih, andThen_cons]
    · rw [taken_at_end left, taken_at_end left]
      simp [Taken.andThen, taken_at_end left]

/-- Without a fault the slots are full or nothing is left. -/
theorem taken_stop {bytes : List UInt8} {slots offset : Nat} (inside : offset ≤ bytes.length)
    (clean : (taken bytes slots offset).fault = none) :
    (taken bytes slots offset).words.length = slots
      ∨ (taken bytes slots offset).stop = bytes.length := by
  induction slots generalizing offset with
  | zero => exact .inl rfl
  | succ slots ih =>
    by_cases left : offset < bytes.length
    · rw [taken, if_pos left] at clean ⊢
      cases first : readVarLong bytes offset with
      | error fault =>
        rw [first] at clean
        cases clean
      | ok read =>
        obtain ⟨word, used⟩ := read
        rw [first] at clean
        have rest := ih (readVarLong_inside first) clean
        simpa [Taken.cons] using rest
    · rw [taken_at_end left]
      exact .inr (by show offset = bytes.length; omega)

/-! ### The loop of a stream -/

/-- The fault that a stream reports for a word that cannot be read. -/
def streamFault : EncodingFault → EncodingFault
  | .truncatedVarLong start => .unterminatedVarLong start
  | fault => fault

/-- What a call of `read` makes of the words that it takes: totals of all of them, and a new position
unless there was a fault. -/
def Taken.reading (map : UInt64 → UInt64) (origin count : Nat) (running : UInt64) (t : Taken) :
    Reading where
  written := (totals running t.words).map map
  position := ⟨if t.fault.isSome then origin else t.stop, totalOf running t.words⟩
  outcome := match t.fault with
    | some fault => .error (streamFault fault)
    | none => .ok (count + t.words.length)

theorem reading_cons (map : UInt64 → UInt64) (origin count : Nat) (running word : UInt64)
    (t : Taken) :
    (t.cons word).reading map origin count running
      = (t.reading map origin (count + 1) (advance running word)).cons
          (map (advance running word)) := by
  obtain ⟨words, stop, fault⟩ := t
  have length : count + (words.length + 1) = count + 1 + words.length := by omega
  cases fault <;>
    simp [Taken.cons, Taken.reading, Reading.cons, totals_cons, totalOf_cons, length]

theorem reading_of_nothing (map : UInt64 → UInt64) (origin count offset : Nat) (running : UInt64) :
    Taken.reading map origin count running ⟨[], offset, none⟩
      = ⟨[], ⟨offset, running⟩, .ok count⟩ := by
  simp [Taken.reading, totals, totalOf_nil]

/-- Where a var-long is decoded, the loop takes its bytes and goes on from its total. -/
theorem readFrom_of_decoded (map : UInt64 → UInt64) (origin : Nat) {window : List UInt8}
    {slots count start shift used total : Nat} {word result running : UInt64}
    (decoded : VarLong.decodeFrom window shift word used = .ok (result, total)) :
    readFrom map origin window (slots + 1) (start + used) count ⟨start, shift, word⟩ running
      = (readFrom map origin (window.drop (total - used)) slots (start + total) (count + 1)
          ⟨start + total, 0, 0⟩ (advance running result)).cons (map (advance running result)) := by
  induction window generalizing shift word used with
  | nil => cases decoded
  | cons byte rest ih =>
    rw [VarLong.decodeFrom] at decoded
    rw [readFrom]
    by_cases beyond : VarLong.overflows shift byte = true
    · rw [if_pos beyond] at decoded
      cases decoded
    · rw [if_neg beyond] at decoded ⊢
      by_cases last : VarLong.isLast byte = true
      · rw [if_pos last] at decoded
        cases decoded
        have one : used + 1 - used = 1 := by omega
        simp only [last, if_true, one, List.drop_one, List.tail_cons, Nat.add_assoc]
      · rw [if_neg last] at decoded
        have longer := (VarLong.decodeFrom_used decoded).1
        have drop : (byte :: rest).drop (total - used) = rest.drop (total - (used + 1)) := by
          have one : total - used = total - (used + 1) + 1 := by omega
          rw [one, List.drop_succ_cons]
        simp only [last, if_false, drop, Bool.false_eq_true]
        exact ih decoded

/-- Where no var-long is decoded, the loop stops for the same reason. -/
theorem readFrom_of_refused (map : UInt64 → UInt64) (origin : Nat) {window : List UInt8}
    {slots count start shift used : Nat} {word running : UInt64} {failure : VarLong.Failure}
    (refused : VarLong.decodeFrom window shift word used = .error failure)
    (begun : window ≠ [] ∨ shift ≠ 0) :
    readFrom map origin window (slots + 1) (start + used) count ⟨start, shift, word⟩ running
      = ⟨[], ⟨origin, running⟩, .error (streamFault (failure.toFault start))⟩ := by
  induction window generalizing shift word used with
  | nil =>
    cases refused
    have middle : shift ≠ 0 := begun.resolve_left (by simp)
    rw [readFrom, if_pos middle]
    rfl
  | cons byte rest ih =>
    rw [VarLong.decodeFrom] at refused
    rw [readFrom]
    by_cases beyond : VarLong.overflows shift byte = true
    · rw [if_pos beyond] at refused ⊢
      cases refused
      rfl
    · rw [if_neg beyond] at refused ⊢
      by_cases last : VarLong.isLast byte = true
      · rw [if_pos last] at refused
        cases refused
      · rw [if_neg last] at refused
        simp only [last, if_false, Bool.false_eq_true]
        exact ih refused (.inr (by omega))

/-- The loop takes words one at a time. -/
theorem readFrom_eq (map : UInt64 → UInt64) (origin : Nat) (bytes : List UInt8)
    (slots offset count : Nat) (running : UInt64) :
    readFrom map origin (bytes.drop offset) slots offset count ⟨offset, 0, 0⟩ running
      = (taken bytes slots offset).reading map origin count running := by
  induction slots generalizing offset count running with
  | zero =>
    rw [taken, reading_of_nothing]
    cases bytes.drop offset <;> rfl
  | succ slots ih =>
    by_cases left : offset < bytes.length
    · rw [taken, if_pos left, readVarLong]
      cases decoded : VarLong.decode (bytes.drop offset) with
      | error failure =>
        have some : bytes.drop offset ≠ [] := by simpa using left
        have stopped : readFrom map origin (bytes.drop offset) (slots + 1) offset count
            ⟨offset, 0, 0⟩ running
              = ⟨[], ⟨origin, running⟩, .error (streamFault (failure.toFault offset))⟩ :=
          readFrom_of_refused map origin decoded (.inl some)
        rw [stopped]
        simp [Taken.reading, totals, totalOf_nil]
      | ok read =>
        obtain ⟨word, used⟩ := read
        have onwards : readFrom map origin (bytes.drop offset) (slots + 1) offset count
            ⟨offset, 0, 0⟩ running
              = (readFrom map origin ((bytes.drop offset).drop used) slots (offset + used)
                  (count + 1) ⟨offset + used, 0, 0⟩ (advance running word)).cons
                (map (advance running word)) :=
          readFrom_of_decoded map origin decoded
        rw [onwards, List.drop_drop, ih]
        exact (reading_cons ..).symm
    · rw [taken_at_end left, reading_of_nothing, List.drop_eq_nil_of_le (by omega)]
      rfl

/-- What a call does on any bytes, in terms of the words that it takes. -/
theorem read_eq (map : UInt64 → UInt64) {bytes : List UInt8} {limit : Nat}
    (inside : limit ≤ bytes.length) (position : Position) (slots : Nat) :
    read map bytes limit position slots
      = (taken (bytes.take limit) slots position.offset).reading map position.offset 0
          position.running := by
  rw [read, if_neg (Nat.not_lt.mpr inside), readFrom_eq]

/-! ### Chunks -/

/-- Calls one after the other, each for a chunk of its own size, until one of them fails: all that was
written, where the last call left the stream, and how many words it is or what stopped it. -/
def readChunks (map : UInt64 → UInt64) (bytes : List UInt8) (limit : Nat) :
    Position → (sizes : List Nat) → Reading
  | position, [] => ⟨[], position, .ok 0⟩
  | position, size :: sizes =>
    let first := read map bytes limit position size
    match first.outcome with
    | .error _ => first
    | .ok count =>
      let others := readChunks map bytes limit first.position sizes
      ⟨first.written ++ others.written, others.position, others.outcome.map (count + ·)⟩

/-- Two ways of reading that bring the same words and end alike.  Where they fail, they may have
started from different offsets. -/
structure Agrees (r s : Reading) : Prop where
  written : r.written = s.written
  running : r.position.running = s.position.running
  outcome : r.outcome = s.outcome
  position : ∀ count, s.outcome = .ok count → r.position = s.position

theorem agrees_refl (r : Reading) : Agrees r r := ⟨rfl, rfl, rfl, fun _ _ => rfl⟩

/-- What is read behind some words agrees with reading it together with them. -/
theorem agrees_behind (map : UInt64 → UInt64) (origin stop : Nat) (running : UInt64)
    (words : List UInt64) (t : Taken) {others : Reading}
    (rest : Agrees others (t.reading map stop 0 (totalOf running words))) :
    Agrees ⟨(totals running words).map map ++ others.written, others.position,
        others.outcome.map (0 + words.length + ·)⟩
      (Taken.reading map origin 0 running { t with words := words ++ t.words }) := by
  obtain ⟨words', stop', fault⟩ := t
  have count : 0 + (words ++ words').length = 0 + words.length + (0 + words'.length) := by
    rw [List.length_append]
    omega
  constructor
  · show (totals running words).map map ++ others.written = (totals running (words ++ words')).map map
    rw [rest.written, totals_append, List.map_append]
    rfl
  · show others.position.running = totalOf running (words ++ words')
    rw [rest.running, totalOf_append]
    rfl
  · show others.outcome.map (0 + words.length + ·) = _
    rw [rest.outcome]
    cases fault with
    | some fault => rfl
    | none =>
      show Except.ok (0 + words.length + (0 + words'.length)) = Except.ok (0 + (words ++ words').length)
      rw [count]
  · intro total ok
    cases fault with
    | some fault => cases ok
    | none =>
      show others.position = ⟨stop', totalOf running (words ++ words')⟩
      rw [rest.position _ rfl, totalOf_append]
      rfl

/-- Chunks of any sizes bring what one call for all of them brings. -/
theorem readChunks_agrees (map : UInt64 → UInt64) {bytes : List UInt8} {limit : Nat}
    (inside : limit ≤ bytes.length) (position : Position) (sizes : List Nat) :
    Agrees (readChunks map bytes limit position sizes)
      (read map bytes limit position sizes.sum) := by
  induction sizes generalizing position with
  | nil =>
    rw [List.sum_nil, read_eq map inside, taken, reading_of_nothing]
    exact agrees_refl _
  | cons size sizes ih =>
    rw [List.sum_cons, readChunks, read_eq map inside _ size, read_eq map inside, taken_add]
    generalize taken (bytes.take limit) size position.offset = t
    obtain ⟨words, stop, fault⟩ := t
    cases fault with
    | some fault => exact agrees_refl _
    | none =>
      have others := ih ⟨stop, totalOf position.running words⟩
      rw [read_eq map inside] at others
      exact agrees_behind map position.offset stop position.running words _ others

/-! ### Whole streams -/

theorem taken_stop_le {bytes : List UInt8} {offset : Nat} (inside : offset ≤ bytes.length)
    (slots : Nat) : (taken bytes slots offset).stop ≤ bytes.length := by
  induction slots generalizing offset with
  | zero => exact inside
  | succ slots ih =>
    by_cases left : offset < bytes.length
    · rw [taken, if_pos left]
      cases first : readVarLong bytes offset with
      | error fault => exact inside
      | ok read => exact ih (readVarLong_inside first)
    · rw [taken_at_end left]
      exact inside

/-- The word at the front of some bytes is the first of the words that they are made of. -/
theorem front_spelled {bytes part rest : List UInt8} {offset : Nat}
    (front : bytes.drop offset = part ++ rest) (spelled : VarLong.Spelled part) :
    ∃ word, readVarLong bytes offset = .ok (word, part.length)
      ∧ bytes.drop (offset + part.length) = rest := by
  have length := congrArg List.length front
  have some := List.length_pos_of_ne_nil spelled.ne_nil
  simp only [List.length_drop, List.length_append] at length
  have cut : (bytes.drop offset).take part.length = part := by rw [front, List.take_left]
  obtain ⟨word, read⟩ := exists_word_of_spelled (show offset + part.length ≤ bytes.length by omega)
    (cut.symm ▸ spelled)
  refine ⟨word, read, ?_⟩
  rw [← List.drop_drop, front, List.drop_left]

/-- The bytes are a sequence of spelled words, no more of them than there are slots. -/
def SpelledWords (slots : Nat) (bytes : List UInt8) : Prop :=
  ∃ parts : List (List UInt8), parts.flatten = bytes ∧ parts.length ≤ slots
    ∧ ∀ part ∈ parts, VarLong.Spelled part

theorem spelledWords_nil (slots : Nat) : SpelledWords slots [] :=
  ⟨[], rfl, Nat.zero_le slots, by simp⟩

theorem eq_nil_of_spelledWords_zero {bytes : List UInt8} (h : SpelledWords 0 bytes) :
    bytes = [] := by
  obtain ⟨parts, rfl, few, -⟩ := h
  rw [List.length_eq_zero_iff.mp (Nat.le_zero.mp few), List.flatten_nil]

/-- A sequence of words that goes on starts with a word that is read. -/
theorem exists_word_of_spelledWords {bytes : List UInt8} {slots offset : Nat}
    (left : offset < bytes.length) (h : SpelledWords slots (bytes.drop offset)) :
    ∃ word used, readVarLong bytes offset = .ok (word, used)
      ∧ SpelledWords (slots - 1) (bytes.drop (offset + used)) := by
  obtain ⟨parts, whole, few, spelled⟩ := h
  cases parts with
  | nil =>
    have done := List.drop_eq_nil_iff.mp whole.symm
    omega
  | cons part parts =>
    obtain ⟨word, read, behind⟩ := front_spelled whole.symm (spelled part List.mem_cons_self)
    rw [List.length_cons] at few
    exact ⟨word, part.length, read, parts, behind.symm, by omega,
      fun p member => spelled p (List.mem_cons_of_mem _ member)⟩

theorem spelledWords_of_read {bytes : List UInt8} {slots offset used : Nat} {word : UInt64}
    (read : readVarLong bytes offset = .ok (word, used))
    (h : SpelledWords slots (bytes.drop (offset + used))) :
    SpelledWords (slots + 1) (bytes.drop offset) := by
  obtain ⟨parts, whole, few, spelled⟩ := h
  refine ⟨(bytes.drop offset).take used :: parts, ?_, Nat.succ_le_succ few, ?_⟩
  · rw [List.flatten_cons, whole, ← List.drop_drop, List.take_append_drop]
  · intro part member
    rcases List.mem_cons.mp member with rfl | member
    · exact (readVarLong_eq_ok_iff.mp read).2.1
    · exact spelled part member

/-- All of the bytes are taken exactly if they are a sequence of spelled words that fit the slots. -/
theorem taken_whole_iff {bytes : List UInt8} {slots offset : Nat} (inside : offset ≤ bytes.length) :
    (taken bytes slots offset).fault = none ∧ (taken bytes slots offset).stop = bytes.length
      ↔ SpelledWords slots (bytes.drop offset) := by
  induction slots generalizing offset with
  | zero =>
    constructor
    · rintro ⟨-, done⟩
      have done : offset = bytes.length := done
      rw [List.drop_eq_nil_of_le (Nat.le_of_eq done.symm)]
      exact spelledWords_nil 0
    · intro h
      have done := List.drop_eq_nil_iff.mp (eq_nil_of_spelledWords_zero h)
      exact ⟨rfl, Nat.le_antisymm inside done⟩
  | succ slots ih =>
    by_cases left : offset < bytes.length
    · rw [taken, if_pos left]
      cases first : readVarLong bytes offset with
      | error fault =>
        constructor
        · rintro ⟨⟨⟩, -⟩
        · intro h
          obtain ⟨word, used, read, -⟩ := exists_word_of_spelledWords left h
          rw [first] at read
          cases read
      | ok read =>
        obtain ⟨word, used⟩ := read
        have rest := ih (readVarLong_inside first)
        constructor
        · intro whole
          exact spelledWords_of_read first (rest.mp whole)
        · intro h
          obtain ⟨_, _, again, behind⟩ := exists_word_of_spelledWords left h
          rw [first] at again
          cases again
          exact rest.mpr behind
    · rw [taken_at_end left, List.drop_eq_nil_of_le (Nat.le_of_not_lt left)]
      exact ⟨fun _ => spelledWords_nil _, fun _ => ⟨rfl, Nat.le_antisymm inside (Nat.le_of_not_lt left)⟩⟩

/-- A stream is read to its end exactly if it is a sequence of spelled words that fit the slots. -/
theorem readAll_ok_iff (map : UInt64 → UInt64) {bytes : List UInt8} {limit : Nat}
    (inside : limit ≤ bytes.length) (slots : Nat) :
    (∃ written, readAll map bytes limit slots = .ok written)
      ↔ SpelledWords slots (bytes.take limit) := by
  have length : (bytes.take limit).length = limit := List.length_take_of_le inside
  have whole : (taken (bytes.take limit) slots 0).fault = none
      ∧ (taken (bytes.take limit) slots 0).stop = (bytes.take limit).length
        ↔ SpelledWords slots ((bytes.take limit).drop 0) := taken_whole_iff (Nat.zero_le _)
  have stop := taken_stop_le (Nat.zero_le (bytes.take limit).length) slots
  rw [List.drop_zero, length] at whole
  rw [length] at stop
  rw [← whole, readAll, read_eq map inside]
  generalize taken (bytes.take limit) slots 0 = t at stop ⊢
  obtain ⟨words, stop', fault⟩ := t
  cases fault with
  | some fault => simp [Taken.reading]
  | none =>
    show (∃ written, (if stop' < limit then
        Except.error (EncodingFault.outputExhausted slots (limit - stop'))
      else .ok ((totals 0 words).map map)) = .ok written) ↔ none = none ∧ stop' = limit
    by_cases short : stop' < limit
    · simp only [if_pos short]
      constructor
      · rintro ⟨_, ⟨⟩⟩
      · rintro ⟨-, done⟩
        omega
    · simp only [if_neg short]
      exact ⟨fun _ => ⟨trivial, Nat.le_antisymm stop (Nat.le_of_not_lt short)⟩, fun _ => ⟨_, rfl⟩⟩

/-- A call on any bytes reads var-longs one after the other, until its slots are full or it stands
exactly at the limit.  If it meets no fault it has written the mapped totals of these words and stands
behind them with the total as it is; otherwise it fails.  Chunks of any sizes agree with one call for
all of them, and a whole stream is read exactly if it is a sequence of spelled words that fit. -/
theorem read_word_by_word (map : UInt64 → UInt64) {bytes : List UInt8} {limit : Nat}
    (inside : limit ≤ bytes.length) {position : Position} (placed : position.offset ≤ limit)
    (slots : Nat) :
    let t := taken (bytes.take limit) slots position.offset
    let r := read map bytes limit position slots
    (∀ count, r.outcome = .ok count ↔ t.fault = none ∧ count = t.words.length)
      ∧ (t.fault = none →
          (t.words.length = slots ∨ t.stop = limit)
            ∧ r.written = (totals position.running t.words).map map
            ∧ r.position = ⟨t.stop, totalOf position.running t.words⟩)
      ∧ (∀ fault, t.fault = some fault → r.outcome = .error (streamFault fault))
      ∧ (∀ sizes : List Nat, sizes.sum = slots →
          Agrees (readChunks map bytes limit position sizes) r)
      ∧ ((∃ written, readAll map bytes limit slots = .ok written)
          ↔ SpelledWords slots (bytes.take limit)) := by
  intro t r
  have reads : r = t.reading map position.offset 0 position.running := read_eq map inside _ _
  have length : (bytes.take limit).length = limit := List.length_take_of_le inside
  refine ⟨?_, ?_, ?_, ?_, readAll_ok_iff map inside slots⟩
  · intro count
    rw [reads]
    cases clean : t.fault with
    | some fault => simp [Taken.reading, clean]
    | none => simp [Taken.reading, clean, eq_comm]
  · intro clean
    have stop := taken_stop (length.symm ▸ placed) clean
    rw [length] at stop
    rw [reads]
    simp only [Taken.reading, clean, Option.isSome_none, Bool.false_eq_true, if_false, and_self,
      and_true]
    exact stop
  · intro fault stopped
    rw [reads]
    simp only [Taken.reading, stopped]
  · rintro sizes rfl
    exact readChunks_agrees map inside position sizes

/-- A step back by two, a step of none, and a third word that lacks its end, read at once and in
chunks of three and one. -/
theorem read_word_by_word_unterminated :
    4 ≤ [0x83, 0x80, 0x82, 0x05].length ∧ 0 ≤ 4
      ∧ (read (· + 1) [0x83, 0x80, 0x82, 0x05] 4 {} 4).outcome = .error (.unterminatedVarLong 3)
      ∧ (readChunks (· + 1) [0x83, 0x80, 0x82, 0x05] 4 {} [3, 1]).outcome
          = .error (.unterminatedVarLong 3)
      ∧ (readChunks (· + 1) [0x83, 0x80, 0x82, 0x05] 4 {} [3, 1]).written
          = [0xffffffffffffffff, 0xffffffffffffffff, 0] := by
  have inside : 4 ≤ ([0x83, 0x80, 0x82, 0x05] : List UInt8).length := by decide
  have placed : ({} : Position).offset ≤ 4 := by decide
  have stopped : (taken [0x83, 0x80, 0x82, 0x05] 4 0).fault = some (.truncatedVarLong 3) := by
    decide +kernel
  obtain ⟨-, -, fails, chunks, -⟩ := read_word_by_word (· + 1) inside placed 4
  have agrees := chunks [3, 1] rfl
  have outcome := fails _ stopped
  refine ⟨inside, placed, outcome, agrees.outcome.trans outcome, agrees.written.trans ?_⟩
  decide +kernel

end NeighborGraph.DeltaStream
