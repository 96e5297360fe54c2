import NeighborGraph.Proofs.Graph.Build
import NeighborGraph.Proofs.Graph.Calls

/-!
# A cursor over a list that was built is a position in it

A cursor decodes chunk by chunk and keeps what it has not handed out.  To its caller it is a
position in the list: `CursorCall.landing` is the index a call goes to, `answerAt` what it finds
there, `positionAfter` the position behind it.  Nothing of chunks or bytes is left in them.

One call keeps a cursor that has everything from a position on ahead in line with that position
(`Cursor.Walk.perform`), so any calls do (`Cursor.Walk.trace`).  A graph that was built yields such a
cursor for every node, at the front of the final list of the node.
-/

namespace NeighborGraph

namespace CursorCall

/-- The index in the list that a call goes to; there may be nothing at it. -/
def landing (entries : List (UInt64 × Binary64)) (position : Nat) : CursorCall → Nat
  | next | advance | item => position
  | seekTo target => position + (entries.drop position).findIdx fun entry => decide (target ≤ entry.1)
  | jump skipped => position + skipped

/-- What a call answers at a position. -/
def answerAt (entries : List (UInt64 × Binary64)) (position : Nat) (call : CursorCall) :
    CursorAnswer :=
  let found := entries[call.landing entries position]?
  match call with
  | next => .pair found
  | _ => .target (found.map (·.1))

/-- The position behind a call: behind the target it found, or at the end. -/
def positionAfter (entries : List (UInt64 × Binary64)) (position : Nat) (call : CursorCall) : Nat :=
  min (call.landing entries position + 1) entries.length

end CursorCall

/-- What any calls answer from a position on, each with the number of targets left after it. -/
def traceAt (entries : List (UInt64 × Binary64)) :
    (position : Nat) → List CursorCall → List (Except EncodingFault CursorAnswer × Nat)
  | _, [] => []
  | position, call :: calls =>
    (.ok (call.answerAt entries position), entries.length - call.positionAfter entries position)
      :: traceAt entries (call.positionAfter entries position) calls

/-- The position behind any calls. -/
def positionAfter (entries : List (UInt64 × Binary64)) (position : Nat)
    (calls : List CursorCall) : Nat :=
  calls.foldl (CursorCall.positionAfter entries) position

/-- Behind the end of a list is the end of it. -/
theorem drop_min_length {α : Type} (entries : List α) (count : Nat) :
    entries.drop (min count entries.length) = entries.drop count := by
  rcases Nat.le_total count entries.length with inside | beyond
  · rw [Nat.min_eq_left inside]
  · rw [Nat.min_eq_right beyond, List.drop_length, List.drop_of_length_le beyond]

namespace Cursor

namespace Walk

variable {ahead : Cursor → List (UInt64 × Binary64) → Prop} (walk : Walk ahead) {c : Cursor}
  {entries : List (UInt64 × Binary64)} {position : Nat}

include walk

/-! ### One call -/

/-- The target of a cursor that stands at a position is the one at that position. -/
theorem next_at (h : ahead c (entries.drop position)) :
    ∃ c', c.next = (.ok entries[position]?, c') ∧ ahead c' (entries.drop (position + 1)) := by
  have front : entries[position]? = (entries.drop position).head? := by
    rw [List.head?_drop]
  have behind : entries.drop (position + 1) = (entries.drop position).tail := by
    rw [List.tail_drop]
  rw [front, behind]
  cases rest : entries.drop position with
  | nil =>
    rw [rest] at h
    exact walk.next_nil h
  | cons entry others =>
    rw [rest] at h
    exact walk.next_cons h

theorem jump_at (h : ahead c (entries.drop position)) (skipped : Nat) :
    ∃ c', c.jump skipped = (.ok (entries[position + skipped]?.map (·.1)), c')
      ∧ ahead c' (entries.drop (position + skipped + 1)) := by
  obtain ⟨c', jumped, behind⟩ := walk.jump h skipped
  rw [List.getElem?_map, List.getElem?_drop] at jumped
  rw [List.drop_drop, ← Nat.add_assoc] at behind
  exact ⟨c', jumped, behind⟩

theorem seekTo_at (h : ahead c (entries.drop position)) (target : UInt64) :
    let found := (CursorCall.seekTo target).landing entries position
    ∃ c', c.seekTo target = (.ok (entries[found]?.map (·.1)), c')
      ∧ ahead c' (entries.drop (found + 1)) := by
  intro found
  obtain ⟨c', sought, behind⟩ := walk.seekTo h target
  rw [List.find?_map, List.find?_eq_getElem?_findIdx, List.getElem?_drop] at sought
  rw [List.dropWhile_eq_drop_findIdx_not, List.tail_drop, List.drop_drop, ← Nat.add_assoc]
    at behind
  simp only [Bool.not_not] at behind
  exact ⟨c', sought, behind⟩

/-- A call on a cursor that has everything from a position on ahead answers what is found from there,
and leaves the cursor behind it. -/
theorem perform (h : ahead c (entries.drop position)) (call : CursorCall) :
    ∃ c', c.perform call = (.ok (call.answerAt entries position), c')
      ∧ ahead c' (entries.drop (call.positionAfter entries position)) := by
  rw [CursorCall.positionAfter, drop_min_length]
  obtain ⟨c', step, behind⟩ := walk.next_at h
  have advanced : c.perform .advance
      = (.ok (CursorCall.advance.answerAt entries position), c') := by
    simp only [Cursor.perform, Cursor.advance, step, Except.map]
    rfl
  cases call with
  | next =>
    refine ⟨c', ?_, behind⟩
    simp only [Cursor.perform, step, Except.map]
    rfl
  | advance => exact ⟨c', advanced, behind⟩
  | item =>
    rw [perform_item]
    exact ⟨c', advanced, behind⟩
  | seekTo target =>
    obtain ⟨c', sought, behind⟩ := walk.seekTo_at h target
    refine ⟨c', ?_, behind⟩
    simp only [Cursor.perform, sought, Except.map]
    rfl
  | jump skipped =>
    obtain ⟨c', jumped, behind⟩ := walk.jump_at h skipped
    refine ⟨c', ?_, behind⟩
    simp only [Cursor.perform, jumped, Except.map]
    rfl

/-! ### Any calls -/

/-- Any calls answer what is found from a position on, and leave the cursor behind the last. -/
theorem trace (h : ahead c (entries.drop position)) (calls : List CursorCall) :
    c.trace calls = traceAt entries position calls
      ∧ ahead (c.after calls) (entries.drop (positionAfter entries position calls)) := by
  induction calls generalizing c position with
  | nil => exact ⟨rfl, h⟩
  | cons call calls ih =>
    obtain ⟨c', step, behind⟩ := walk.perform h call
    obtain ⟨later, rest⟩ := ih behind
    have left := walk.left behind
    rw [List.length_drop] at left
    rw [Cursor.trace, after, step, traceAt]
    refine ⟨?_, rest⟩
    rw [later, left]

end Walk

theorem trace_of_holds {c : Cursor} {entries : List (UInt64 × Binary64)} {position : Nat}
    (h : c.Holds (entries.drop position)) (calls : List CursorCall) :
    c.trace calls = traceAt entries position calls
      ∧ (c.after calls).Holds (entries.drop (positionAfter entries position calls)) :=
  walk_holds.trace h calls

end Cursor

/-! ### Graphs that were built -/

namespace GraphDraft

/-- The cursor at the front of a node's list answers any calls as a position in the list does, says at
any time how many targets are left, and hands out exactly those when it is drained.  The list is that
of the relationships that the accepted steps added. -/
theorem cursor_is_position {nodeCount : UInt64} {steps : List GraphStep} {g : CompressedGraph}
    (built : ((ofNodeCount nodeCount).run steps).build = .ok g) {node : UInt64}
    (inside : node < nodeCount) :
    let entries := finalList ((ofNodeCount nodeCount).run steps).aggregation
      (recorded nodeCount false steps) node
    g.neighbors node = .ok (entries.map (·.1))
      ∧ ∃ c, g.cursor node = .ok c ∧ c.sizeHint = (entries.length, some entries.length)
        ∧ ∀ calls,
          let position := positionAfter entries 0 calls
          c.trace calls = traceAt entries 0 calls
            ∧ (c.after calls).sizeHint
              = (entries.length - position, some (entries.length - position))
            ∧ (c.after calls).drain = .ok ((entries.map (·.1)).drop position) := by
  intro entries
  obtain ⟨both, h⟩ := records_run (records_ofNodeCount nodeCount) steps
  obtain ⟨l, rfl, lays, fits⟩ := graphOver_of_build h built
  obtain ⟨c, front, held⟩ := cursor_graphOver h (stores_finalLists h lays fits) inside
  have held : c.Holds (entries.drop 0) := held
  refine ⟨?_, c, front, ?_, ?_⟩
  · rw [CompressedGraph.neighbors, front]
    simp only [Cursor.drain_of_holds held, CompressedGraph.decoded, Except.mapError,
      List.drop_zero]
  · rw [Cursor.sizeHint, held.left, List.drop_zero]
  · intro calls position
    obtain ⟨answers, behind⟩ := Cursor.trace_of_holds held calls
    refine ⟨answers, ?_, ?_⟩
    · rw [Cursor.sizeHint, behind.left, List.length_drop]
    · rw [Cursor.drain_of_holds behind, List.map_drop]

theorem cursor_is_position_of_triangle :
    ∃ c, triangleGraph.cursor 0 = .ok c ∧ triangleGraph.neighbors 0 = .ok [1, 2]
      ∧ c.trace [.next, .seekTo 2, .jump 0]
        = [(.ok (.pair (some (1, .nan))), 1), (.ok (.target (some 2)), 0),
          (.ok (.target none), 0)] := by
  have inside : (0 : UInt64) < 3 := by decide
  have final : finalList ((ofNodeCount 3).run triangle).aggregation (recorded 3 false triangle) 0
      = [(1, .nan), (2, .one)] := by cbv
  obtain ⟨neighbors, c, front, -, answers⟩ := cursor_is_position build_triangle inside
  rw [final] at neighbors answers
  exact ⟨c, front, neighbors, (answers [.next, .seekTo 2, .jump 0]).1⟩

end GraphDraft

end NeighborGraph
