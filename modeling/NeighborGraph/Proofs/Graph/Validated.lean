import NeighborGraph.Proofs.Graph.Opened
import NeighborGraph.Proofs.Graph.Position

/-!
# A graph that was validated answers every query

The lists of an opened graph may be any bytes.  Validating walks every list once, from its front to
its end and with the properties; other queries stop early, skip, or go on where an earlier call
stopped.  All of them decode by the same steps, though, and a step does not depend on what was asked
before.  So if draining a cursor succeeds, the cursor walks along what draining hands out, like one
over a list that was written (`Cursor.walk_drains`), and every query reads that list.
-/

namespace NeighborGraph

/-! ### Cursors that can be drained -/

namespace Cursor

/-- The cursor, over a list of `degree` targets, hands out `entries` when it is drained. -/
structure Drains (degree : Nat) (c : Cursor) (entries : List (UInt64 × Binary64)) : Prop where
  inStep : c.InStep degree
  drained : c.drainPairs = .ok entries

/-- At the end nothing is handed out, whatever the bytes, and the cursor stays where it is. -/
theorem next_of_finished {degree : Nat} {c : Cursor} (h : c.InStep degree)
    (finished : c.remaining = 0) : c.next = (.ok none, c) := by
  have left := h.remaining
  have none : c.pending = [] := List.length_eq_zero_iff.mp (by omega)
  have last : c.decoder.remaining = 0 := by
    rw [c.decoder.remaining_eq, h.total]
    omega
  have empty : pair c.withProperties {} = [] := by
    rw [pair]
    split <;> rfl
  obtain ⟨bytes, decoder, withProperties, pending, remaining⟩ := c
  subst none
  simp only [next, fill, Decoder.next_of_finished last, empty]

theorem Drains.left {degree : Nat} {c : Cursor} {entries : List (UInt64 × Binary64)}
    (h : c.Drains degree entries) : c.remaining = entries.length := by
  rcases take_cases h.inStep (Nat.lt_succ_self _) with ⟨taken, all, length⟩ | ⟨fault, failed⟩
  · have same : taken = entries := Except.ok.inj (all.symm.trans h.drained)
    rw [← same, length]
  · cases failed.symm.trans h.drained

/-- A cursor that can be drained walks along what draining hands out. -/
theorem walk_drains (degree : Nat) : Walk (fun c entries => c.Drains degree entries) where
  left h := h.left
  next_cons := by
    intro c entry entries h
    have drained := h.drained
    rw [drainPairs, take] at drained
    rcases next_cases h.inStep with
      ⟨first, c', step, inStep, left⟩ | ⟨c', step, -⟩ | ⟨fault, c', step, -⟩
    · simp only [step, left] at drained
      cases rest : take (c'.remaining + 1) c' with
      | error fault => simp only [rest, Except.map, reduceCtorEq] at drained
      | ok others =>
        simp only [rest, Except.map, Except.ok.injEq, List.cons.injEq] at drained
        obtain ⟨rfl, rfl⟩ := drained
        exact ⟨c', step, inStep, rest⟩
    · simp only [step, Except.ok.injEq, reduceCtorEq] at drained
    · simp only [step, reduceCtorEq] at drained
  next_nil := by
    intro c h
    exact ⟨c, next_of_finished h.inStep h.left, h⟩

end Cursor

namespace CompressedGraph

/-! ### Validating -/

/-- Things done one after the other succeed exactly if each of them does. -/
theorem forM_eq_ok {α : Type} {f : α → Checked Unit} {items : List α} :
    items.forM f = .ok () ↔ ∀ item ∈ items, f item = .ok () := by
  induction items with
  | nil => exact ⟨fun _ item member => absurd member List.not_mem_nil, fun _ => rfl⟩
  | cons item items ih =>
    rw [List.forall_mem_cons, ← ih]
    show (f item >>= fun _ => items.forM f) = .ok () ↔ _
    rw [GraphFile.bind_eq_ok]
    constructor
    · rintro ⟨⟨⟩, first, others⟩
      exact ⟨first, others⟩
    · rintro ⟨first, others⟩
      exact ⟨(), first, others⟩

section Layout

variable {g : CompressedGraph} (laidOut : g.LaidOut)

include laidOut

/-- A list passes exactly if its targets can be had: there are as many as its degree says. -/
theorem checkList_eq_ok {node : UInt64} (inside : node < g.nodeCount) :
    g.checkList node = .ok () ↔ ∃ targets, g.neighbors node = .ok targets := by
  obtain ⟨c, front, inStep, whole⟩ := cursor_of_laidOut laidOut inside
  have read : g.neighbors node = decoded c.drain := by rw [neighbors, front]
  rw [checkList, read]
  rcases Cursor.drain_cases inStep with ⟨targets, drained, length⟩ | ⟨fault, failed⟩
  · simp only [drained, decoded, Except.mapError, length, whole, if_true, true_iff]
    exact ⟨targets, rfl⟩
  · simp only [failed, decoded, Except.mapError, reduceCtorEq, exists_false]

theorem validate_eq_ok :
    g.validate = .ok () ↔ ∀ node < g.nodeCount, ∃ targets, g.neighbors node = .ok targets := by
  rw [validate, forM_eq_ok]
  constructor
  · intro passed node inside
    have member : node.toNat ∈ List.range g.size := List.mem_range.mpr inside
    have own := passed node.toNat member
    rw [show node.toNat.toUInt64 = node from UInt64.ofNat_toNat] at own
    exact (checkList_eq_ok laidOut inside).mp own
  · intro answers node member
    have inside : node.toUInt64 < g.nodeCount :=
      GraphDraft.ofNat_node_lt (List.mem_range.mp member)
    exact (checkList_eq_ok laidOut inside).mpr (answers _ inside)

/-- If the targets of a node can be had, a cursor at the front of its list can be drained. -/
theorem drains_of_neighbors {node : UInt64} (inside : node < g.nodeCount) {targets : List UInt64}
    (answer : g.neighbors node = .ok targets) :
    ∃ c entries, g.cursor node = .ok c ∧ c.Drains (g.degree node) entries
      ∧ g.degree node = entries.length := by
  obtain ⟨c, front, inStep, whole⟩ := cursor_of_laidOut laidOut inside
  rw [neighbors, front] at answer
  cases drained : c.drainPairs with
  | error fault =>
    simp only [Cursor.drain, drained, Except.map, decoded, Except.mapError, reduceCtorEq] at answer
  | ok entries =>
    have drains : c.Drains (g.degree node) entries := ⟨inStep, drained⟩
    exact ⟨c, entries, front, drains, whole ▸ drains.left⟩

end Layout

end CompressedGraph

/-! ### Opened graphs -/

namespace GraphFile

/-- A graph that was read is valid exactly if the targets of every node can be had.  If it is valid,
then every node has a list of as many relationships as its degree says, which every query about the
node reads, and along which a cursor goes: it answers any calls as a position in the list does, and
hands out what is behind the position when it is drained. -/
theorem validated_graph_answers {bytes : List UInt8} {g : CompressedGraph}
    (accepted : decode bytes = .ok g) :
    (g.validate = .ok () ↔ ∀ node < g.nodeCount, ∃ targets, g.neighbors node = .ok targets)
      ∧ (g.validate = .ok () → ∀ node < g.nodeCount, ∃ entries, g.Reads node entries
          ∧ ∃ c, g.cursor node = .ok c ∧ ∀ calls, c.trace calls = traceAt entries 0 calls
            ∧ (c.after calls).drain
              = .ok ((entries.map (·.1)).drop (positionAfter entries 0 calls))) := by
  have laidOut := laidOut_of_decode accepted
  have valid := CompressedGraph.validate_eq_ok laidOut
  refine ⟨valid, ?_⟩
  intro passed node inside
  obtain ⟨targets, answer⟩ := valid.mp passed node inside
  obtain ⟨c, entries, front, drains, degree⟩ :=
    CompressedGraph.drains_of_neighbors laidOut inside answer
  have walk := Cursor.walk_drains (g.degree node)
  refine ⟨entries, CompressedGraph.reads_of_walk walk front drains degree, c, front, ?_⟩
  intro calls
  have whole : c.Drains (g.degree node) (entries.drop 0) := drains
  obtain ⟨answers, behind⟩ := walk.trace whole calls
  refine ⟨answers, ?_⟩
  rw [walk.drain behind, List.map_drop]

theorem validated_graph_answers_triangle :
    ∃ g entries, decode (encode GraphDraft.triangleGraph) = .ok g ∧ g.validate = .ok ()
      ∧ g.Reads 0 entries := by
  have valid : ({ GraphDraft.triangleGraph with mapped := true } : CompressedGraph).validate
      = .ok () := by cbv
  obtain ⟨entries, reads, -⟩ := (validated_graph_answers decode_triangle).2 valid 0 (by decide)
  exact ⟨_, entries, decode_triangle, valid, reads⟩

end GraphFile

end NeighborGraph
