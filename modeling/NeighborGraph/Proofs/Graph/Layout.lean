import Mathlib.Algebra.GroupWithZero.Nat
import NeighborGraph.Proofs.Graph.Cursor
import NeighborGraph.Graph.Draft

/-!
# Lists laid out back to back are found again

`Layout.Lays` is the invariant of laying out: after some lists, the bytes are theirs one after the
other, every offset is the number of bytes before its list, and every degree is the number of its
targets.  One more list keeps it (`lays_push`), unless its degree is too large.

`CompressedGraph.Stores` is what remains of it in a graph.  Offsets are 64-bit words, so it matters
that all bytes together fit one buffer; then the bytes between two offsets are exactly one list
(`listBytes_of_stores`), and a cursor over them holds its relationships (`cursor_of_stores`).
-/

namespace NeighborGraph

/-- An array that is known at every index is a list over the indices. -/
theorem toList_eq_map_range {α : Type} {items : Array α} {count : Nat} {f : Nat → α}
    (size : items.size = count) (each : ∀ index < count, items[index]? = some (f index)) :
    items.toList = (List.range count).map f := by
  apply List.ext_getElem?
  intro index
  have own : items.toList[index]? = items[index]? := Array.getElem?_toList
  rw [own, List.getElem?_map]
  by_cases inside : index < count
  · rw [each index inside, List.getElem?_range inside, Option.map_some]
  · rw [Array.getElem?_eq_none (by omega), List.getElem?_eq_none (by rw [List.length_range]; omega),
      Option.map_none]

/-- Number of bytes of the first `count` lists. -/
def bytesBefore (lists : List Encoded) (count : Nat) : Nat :=
  ((lists.take count).flatMap Encoded.bytes).length

/-- Number of bytes of all lists. -/
def totalBytes (lists : List Encoded) : Nat := (lists.map (·.bytes.length)).sum

theorem bytesBefore_all (lists : List Encoded) : bytesBefore lists lists.length = totalBytes lists := by
  rw [bytesBefore, List.take_length, List.length_flatMap, totalBytes]

theorem bytesBefore_append {lists : List Encoded} {count : Nat} (inside : count ≤ lists.length)
    (more : List Encoded) : bytesBefore (lists ++ more) count = bytesBefore lists count := by
  rw [bytesBefore, List.take_append_of_le_length inside, bytesBefore]

theorem bytesBefore_succ {lists : List Encoded} {index : Nat} {e : Encoded}
    (at_index : lists[index]? = some e) :
    bytesBefore lists (index + 1) = bytesBefore lists index + e.bytes.length := by
  rw [bytesBefore, List.take_add_one, at_index, List.flatMap_append, List.length_append, bytesBefore]
  simp

theorem bytesBefore_le (lists : List Encoded) (count : Nat) :
    bytesBefore lists count ≤ totalBytes lists := by
  rw [← bytesBefore_all, bytesBefore, bytesBefore, List.take_length]
  have split := congrArg (List.flatMap Encoded.bytes) (List.take_append_drop count lists)
  rw [List.flatMap_append] at split
  rw [← split, List.length_append]
  exact Nat.le_add_right _ _

/-! ### Laying out -/

namespace GraphDraft

/-- These lists have been laid out, in this order. -/
structure Layout.Lays (l : Layout) (lists : List Encoded) : Prop where
  count : l.offsets.size = lists.length
  offsets : ∀ index < lists.length,
    l.offsets[index]? = some (UInt64.ofNat (bytesBefore lists index))
  degrees : l.degrees.toList = lists.map fun e => UInt32.ofNat e.degree
  adjacency : l.adjacency.toList = lists.flatMap Encoded.bytes
  relationships : l.relationshipCount = UInt64.ofNat (lists.map Encoded.degree).sum
  small : ∀ e ∈ lists, e.degree ≤ largestDegree

theorem lays_nil : Layout.Lays {} [] :=
  ⟨rfl, fun _ inside => absurd inside (Nat.not_lt_zero _), rfl, rfl, rfl,
    fun _ member => absurd member List.not_mem_nil⟩

/-- One more list is laid out behind the others, if its degree fits its word. -/
theorem lays_push {l : Layout} {lists : List Encoded} (h : l.Lays lists) (e : Encoded) :
    (largestDegree < e.degree
        ∧ l.push e = .error (.invalidArgument (.degreeTooLarge e.degree)))
      ∨ ∃ l', l.push e = .ok l' ∧ l'.Lays (lists ++ [e]) := by
  by_cases large : largestDegree < e.degree
  · exact .inl ⟨large, if_pos large⟩
  · refine .inr ⟨_, if_neg large, ?_, ?_, ?_, ?_, ?_, ?_⟩
    · rw [Array.size_push, h.count, List.length_append, List.length_singleton]
    · intro index inside
      rw [List.length_append, List.length_singleton] at inside
      rw [Array.getElem?_push, h.count, bytesBefore_append (Nat.le_of_lt_succ inside)]
      by_cases last : index = lists.length
      · rw [if_pos last, last, bytesBefore, List.take_length, ← h.adjacency]
        rfl
      · rw [if_neg last]
        exact h.offsets index (by omega)
    · rw [Array.toList_push, h.degrees, List.map_append]
      rfl
    · show (l.adjacency ++ e.bytes).toList = _
      rw [Array.toList_appendList, h.adjacency, List.flatMap_append, List.flatMap_singleton]
    · show l.relationshipCount + UInt64.ofNat e.degree = _
      rw [h.relationships, List.map_append, List.sum_append, UInt64.ofNat_add]
      rfl
    · intro e' member
      rcases List.mem_append.mp member with before | last
      · exact h.small e' before
      · rw [List.mem_singleton.mp last]
        exact Nat.not_lt.mp large

/-- Lists are laid out one after the other, up to the first whose degree is too large. -/
theorem lays_foldlM {l : Layout} {before : List Encoded} (h : l.Lays before)
    (lists : List Encoded) :
    (∃ e ∈ lists, largestDegree < e.degree
        ∧ lists.foldlM Layout.push l = .error (.invalidArgument (.degreeTooLarge e.degree)))
      ∨ ∃ l', lists.foldlM Layout.push l = .ok l' ∧ l'.Lays (before ++ lists) := by
  induction lists generalizing l before with
  | nil =>
    refine .inr ⟨l, rfl, ?_⟩
    rw [List.append_nil]
    exact h
  | cons e lists ih =>
    rw [List.foldlM_cons]
    rcases lays_push h e with ⟨large, refused⟩ | ⟨l', pushed, h'⟩
    · refine .inl ⟨e, List.mem_cons_self, large, ?_⟩
      rw [refused]
      rfl
    · rw [pushed]
      rcases ih h' with ⟨e', member, large, refused⟩ | ⟨l'', done, h''⟩
      · exact .inl ⟨e', List.mem_cons_of_mem _ member, large, refused⟩
      · refine .inr ⟨l'', done, ?_⟩
        rw [List.append_assoc] at h''
        exact h''

/-- Lists are laid out unless one of them, or all together, are too large. -/
theorem layOut_cases (lists : List Encoded) :
    (largestBuffer < totalBytes lists ∧ layOut lists = .error (.crash .capacityOverflow))
      ∨ (∃ e ∈ lists, largestDegree < e.degree
          ∧ layOut lists = .error (.invalidArgument (.degreeTooLarge e.degree)))
      ∨ ∃ l, layOut lists = .ok l ∧ l.Lays lists ∧ totalBytes lists ≤ largestBuffer := by
  have bytes : (lists.flatMap Encoded.bytes).length = totalBytes lists := List.length_flatMap
  by_cases large : largestBuffer < totalBytes lists
  · refine .inl ⟨large, ?_⟩
    rw [layOut, bytes, if_pos large]
  · have steps : layOut lists = lists.foldlM Layout.push {} := by
      rw [layOut, bytes, if_neg large]
    rw [steps]
    rcases lays_foldlM lays_nil lists with refused | ⟨l, done, h⟩
    · exact .inr (.inl refused)
    · exact .inr (.inr ⟨l, done, h, Nat.not_lt.mp large⟩)

end GraphDraft

/-! ### Finding a list again -/

namespace CompressedGraph

/-- The graph holds these lists, one for each node. -/
structure Stores (g : CompressedGraph) (lists : List Encoded) : Prop where
  nodes : lists.length = g.size
  offsets : ∀ index ≤ lists.length,
    g.offsets[index]? = some (UInt64.ofNat (bytesBefore lists index))
  degrees : g.degrees.toList = lists.map fun e => UInt32.ofNat e.degree
  adjacency : g.adjacency.toList = lists.flatMap Encoded.bytes
  fits : totalBytes lists ≤ GraphDraft.largestBuffer
  small : ∀ e ∈ lists, e.degree ≤ GraphDraft.largestDegree

theorem degree_of_stores {g : CompressedGraph} {lists : List Encoded} (h : g.Stores lists)
    {node : UInt64} {e : Encoded} (own : lists[node.toNat]? = some e) :
    g.degree node = e.degree := by
  have degrees : g.degrees[node.toNat]? = some (UInt32.ofNat e.degree) := by
    rw [← Array.getElem?_toList, h.degrees, List.getElem?_map, own]
    rfl
  have small := h.small e (List.mem_of_getElem? own)
  have word : (UInt32.ofNat e.degree).toNat = e.degree := by
    rw [UInt32.toNat_ofNat']
    exact Nat.mod_eq_of_lt (Nat.lt_succ_of_le small)
  rw [degree, degrees, Option.map_some, Option.getD_some, word]

theorem toNat_offset {lists : List Encoded} (fits : totalBytes lists ≤ GraphDraft.largestBuffer)
    (count : Nat) : (UInt64.ofNat (bytesBefore lists count)).toNat = bytesBefore lists count := by
  have small := bytesBefore_le lists count
  rw [UInt64.toNat_ofNat']
  apply Nat.mod_eq_of_lt
  have bound : GraphDraft.largestBuffer < 2 ^ 64 := by decide
  omega

/-- Between two offsets lie the bytes of one list. -/
theorem listBytes_of_stores {g : CompressedGraph} {lists : List Encoded} (h : g.Stores lists)
    {node : UInt64} {e : Encoded} (own : lists[node.toNat]? = some e) :
    g.listBytes node = .ok e.bytes := by
  obtain ⟨inside, here⟩ := List.getElem?_eq_some_iff.mp own
  have known : node < g.nodeCount := by
    show node.toNat < g.nodeCount.toNat
    rw [← size, ← h.nodes]
    exact inside
  have start := h.offsets node.toNat (Nat.le_of_lt inside)
  have stop := h.offsets (node.toNat + 1) inside
  have startAt := toNat_offset h.fits node.toNat
  have stopAt := toNat_offset h.fits (node.toNat + 1)
  have step := bytesBefore_succ own
  have total := bytesBefore_le lists (node.toNat + 1)
  have size : g.adjacency.size = totalBytes lists := by
    rw [← Array.length_toList, h.adjacency, List.length_flatMap, totalBytes]
  have ordered : UInt64.ofNat (bytesBefore lists node.toNat)
        ≤ UInt64.ofNat (bytesBefore lists (node.toNat + 1))
      ∧ bytesBefore lists (node.toNat + 1) ≤ g.adjacency.size := by
    refine ⟨?_, size ▸ total⟩
    show (UInt64.ofNat _).toNat ≤ (UInt64.ofNat _).toNat
    omega
  -- the lists before, the list itself and the lists behind
  have around : lists.flatMap Encoded.bytes
      = (lists.take node.toNat).flatMap Encoded.bytes
        ++ (e.bytes ++ (lists.drop (node.toNat + 1)).flatMap Encoded.bytes) := by
    have split := List.take_append_drop node.toNat lists
    have front : lists.drop node.toNat = e :: lists.drop (node.toNat + 1) := by
      rw [List.drop_eq_getElem_cons inside, here]
    rw [front] at split
    rw [← List.flatMap_cons, ← List.flatMap_append, split]
  have part : (g.adjacency.extract (bytesBefore lists node.toNat)
      (bytesBefore lists (node.toNat + 1))).toList = e.bytes := by
    rw [Array.toList_extract, List.extract_eq_take_drop, h.adjacency, around, step,
      Nat.add_sub_cancel_left, bytesBefore, List.drop_left, List.take_left]
  rw [listBytes, if_pos known, start, stop]
  simp only [startAt, stopAt, if_pos ordered, part]

/-- A cursor at the front of a list holds its relationships. -/
theorem cursor_of_stores {g : CompressedGraph} {lists : List Encoded} (h : g.Stores lists)
    {node : UInt64} {e : Encoded} (own : lists[node.toNat]? = some e)
    (written : e.bytes = Adjacency.bytesOf g.mode e.targets (e.properties.getD []))
    (paired : (e.properties.getD []).length = if g.withProperties then e.targets.length else 0) :
    ∃ c, g.cursor node = .ok c
      ∧ c.Holds (Cursor.pair g.withProperties ⟨e.targets, e.properties.getD []⟩) := by
  have stands := Decoder.stands_start g.mode g.withProperties paired
  rw [← written] at stands
  refine ⟨_, ?_, Cursor.holds_start stands paired⟩
  rw [cursor, listBytes_of_stores h own, degree_of_stores h own]
  rfl

end CompressedGraph

end NeighborGraph
