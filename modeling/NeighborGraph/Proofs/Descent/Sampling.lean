import NeighborGraph.Proofs.Descent.Accounts
import NeighborGraph.Proofs.Graph.Opened

/-!
# A sampler never comes back with less

Whatever the graph, a sampler that is asked for no more nodes than there are others yields as many
different ones (`Sampler.draw_full`).  A walk may find too few of them, because it ends, goes in circles
or leaves the nodes of the graph, but then as many equally likely ones are drawn, and however many of
these were found before, together they are enough.

Graphs that callers hold may come from a file with lists that do not decode.  A walk that comes by such
a list fails, and this is the only way for a sampler to fail (`Sampler.walk_delivers`).
-/

namespace NeighborGraph

open NeighborGraph.Action

namespace CompressedGraph

/-- A walk along relationships that can be decoded leads from one node to the other.  A graph from a
file may lead to nodes that it does not have. -/
inductive Reaches (g : CompressedGraph) (node : UInt64) : UInt64 → Prop
  | here : Reaches g node node
  | step {v t : UInt64} {index : Nat} (before : Reaches g node v)
    (entry : g.neighborAt v index = .ok (some t)) : Reaches g node t

/-- A node that can be reached has a list that does not decode. -/
def LeadsAstray (g : CompressedGraph) (node : UInt64) (cause : EncodingFault) : Prop :=
  ∃ v, g.Reaches node v ∧ v < g.nodeCount ∧ g.neighbors v = .error (.corruptEncoding cause)

/-- Only nodes of the graph have relationships. -/
theorem lt_of_degree_pos {g : CompressedGraph} (laidOut : g.LaidOut) {node : UInt64}
    (some : 0 < g.degree node) : node < g.nodeCount := by
  rw [degree] at some
  cases found : g.degrees[node.toNat]? with
  | none => simp [found] at some
  | some degree =>
    obtain ⟨inside, -⟩ := Array.getElem?_eq_some_iff.mp found
    rw [laidOut.degrees] at inside
    exact inside

end CompressedGraph

namespace Sampler

/-- Different nodes other than a given one, as many as asked for. -/
structure Full (nodeCount node amount : Nat) (xs : List Nat) : Prop where
  complete : xs.length = amount
  distinct : xs.Nodup
  others : ∀ x ∈ xs, Other nodeCount node x

variable {g : CompressedGraph} {node amount : Nat}

/-! ### Different nodes -/

theorem drawByWalk_distinct (g : CompressedGraph) (node amount : Nat) :
    (drawByWalk g node amount).Yields List.Nodup := by
  refine yields_bind (walk_distinct g _ .nil) fun found distinct => ?_
  refine ensures_ite (fun _ => ?_) fun _ => yields_pure distinct
  refine yields_bind (yields_any _) fun others _ => yields_pure ?_
  exact (nodup_eraseDups _).sublist (List.take_sublist _ _)

theorem draw_distinct (sampler : Sampler) (g : CompressedGraph) (fits : amount ≤ g.size - 1) :
    (sampler.draw g node amount).Yields List.Nodup := by
  cases sampler with
  | uniform => exact (drawUniform_amount node fits).mono (fun _ start => start) fun _ _ known => known.1
  | randomWalk => exact drawByWalk_distinct g node amount

theorem draw_yields_full (sampler : Sampler) (g : CompressedGraph) (fits : amount ≤ g.size - 1) :
    (sampler.draw g node amount).Yields (Full g.size node amount) := by
  have known := ((sampler.draw_amount g fits).and (sampler.draw_distinct g fits)).and
    (sampler.draw_yields g node amount)
  exact known.mono (fun _ start => start) fun _ _ ⟨⟨complete, distinct⟩, others⟩ =>
    ⟨complete, distinct, others⟩

/-! ### Walks that fail -/

/-- A failure of a walk. -/
abbrev Astray (g : CompressedGraph) (node : Nat) (fault : Fault) : Prop :=
  ∃ cause, fault = .corruptEncoding cause ∧ g.LeadsAstray node.toUInt64 cause

/-- A walk goes on as long as it has decoded its way, and nothing but a list can stop it. -/
theorem walk_delivers (laidOut : g.LaidOut) (steps : Nat) {current : Nat}
    (reached : g.Reaches node.toUInt64 current.toUInt64) (found : List Nat) :
    (walk g node amount steps current found).Delivers (fun _ => True) (fun _ _ => True)
      fun fault _ => Astray g node fault := by
  induction steps generalizing current found with
  | zero => exact delivers_pure fun _ _ => trivial
  | succ steps ih =>
    rw [walk]
    refine delivers_ite (fun _ => delivers_pure fun _ _ => trivial) fun _ => ?_
    refine delivers_behind (restarts_total _ _ _) (restarts_yields _ _ _) fun back left => ?_
    refine delivers_ite (fun _ => ?_) fun onward => ?_
    · exact delivers_ite (fun _ => delivers_pure fun _ _ => trivial) fun _ => ih .here found
    · have inside := CompressedGraph.lt_of_degree_pos laidOut (left onward)
      refine delivers_behind (Random.below64_total (left onward)) (yields_any _) fun index _ => ?_
      cases entry : g.neighborAt current.toUInt64 index with
      | error fault =>
        obtain ⟨cause, same, whole⟩ :=
          CompressedGraph.neighbors_of_neighborAt_error laidOut inside entry
        exact fun stream _ => .inr ⟨fault, stream, rfl, cause, same, _, reached, inside, whole⟩
      | ok next =>
        rw [check_ok_bind]
        cases next with
        | none => exact delivers_pure fun _ _ => trivial
        | some next =>
          refine ih ?_ _
          rw [show next.toNat.toUInt64 = next from UInt64.ofNat_toNat]
          exact reached.step entry

theorem drawByWalk_delivers (laidOut : g.LaidOut) (node amount : Nat) :
    (drawByWalk g node amount).Delivers (fun _ => True) (fun _ _ => True)
      fun fault _ => Astray g node fault := by
  refine delivers_bind (walk_delivers laidOut _ .here []) fun found => ?_
  refine delivers_ite (fun _ => ?_) fun _ => delivers_pure fun _ _ => trivial
  refine delivers_behind (drawUniform_total g.size node amount) (yields_any _) fun others _ => ?_
  exact delivers_pure fun _ _ => trivial

theorem draw_delivers (sampler : Sampler) (laidOut : g.LaidOut) (node amount : Nat) :
    (sampler.draw g node amount).Delivers (fun _ => True) (fun _ _ => True)
      fun fault _ => sampler = .randomWalk ∧ Astray g node fault := by
  cases sampler with
  | uniform => exact (drawUniform_total g.size node amount).delivers (yields_any _)
  | randomWalk =>
    intro stream start
    rcases drawByWalk_delivers laidOut node amount stream start with done | ⟨fault, stream', run, astray⟩
    · exact .inl done
    · exact .inr ⟨fault, stream', run, rfl, astray⟩

/-- A sampler that is asked for no more nodes than there are others yields as many different ones, all of
them nodes of the graph and none of them the given one, whatever the stream.  It fails only if it walks
along a graph from a file and comes by a list that does not decode; then it says why that list does not.
-/
theorem draw_full (sampler : Sampler) {g : CompressedGraph} (held : g.Held) {node amount : Nat}
    (inside : node < g.size) (fits : amount ≤ g.size - 1) (stream : Random.Stream) :
    (∃ xs stream', sampler.draw g node amount stream = (.ok xs, stream')
        ∧ Full g.size node amount xs)
      ∨ ∃ cause stream', sampler.draw g node amount stream = (.error (.corruptEncoding cause), stream')
        ∧ sampler = .randomWalk ∧ ¬g.Made ∧ g.LeadsAstray node.toUInt64 cause := by
  have laidOut := CompressedGraph.laidOut_of_held held
  rcases sampler.draw_delivers laidOut node amount stream trivial with
    ⟨xs, stream', run, -⟩ | ⟨fault, stream', run, walks, cause, rfl, astray⟩
  · exact .inl ⟨xs, stream', run, sampler.draw_yields_full g fits stream xs stream' trivial run⟩
  · refine .inr ⟨cause, stream', run, walks, fun made => ?_, astray⟩
    have walkable := CompressedGraph.walkable_of_made made
    rcases sampler.draw_total walkable inside amount stream trivial with
      ⟨xs, stream', succeeds, -⟩ | ⟨-, -, -, none⟩
    · rw [run] at succeeds
      cases succeeds
    · exact none

/-- Two nodes.  The list of the first one is said to hold a word of eight bytes, but has one byte. -/
def brokenPair : CompressedGraph where
  mode := .plain
  nodeCount := 2
  relationshipCount := 1
  withProperties := false
  offsets := #[0, 1, 1]
  degrees := #[1, 0]
  adjacency := #[7]
  mapped := true

theorem held_brokenPair : brokenPair.Held := by
  have laidOut : brokenPair.LaidOut := ⟨rfl, rfl, by decide, rfl, by decide, rfl⟩
  have described : (GraphFile.describe brokenPair).encode.length = 56 := by decide +kernel
  have length : (GraphFile.encode brokenPair).length = 105 := by
    rw [GraphFile.length_encode, described]
    rfl
  exact .opened (GraphFile.decode_encode laidOut (PropertyStore.ordered_nil _)
    (by rw [described]; decide) (by rw [length]; decide))

/-- A walk through a built graph finds both other nodes; one through the broken pair is led astray. -/
theorem draw_full_of_pairs :
    (∀ stream, ∃ xs stream', randomWalk.draw GraphDraft.triangleGraph 0 2 stream = (.ok xs, stream')
        ∧ Full 3 0 2 xs)
      ∧ ∃ cause stream', randomWalk.draw brokenPair 0 1 (Random.Stream.ofSeed 1)
          = (.error (.corruptEncoding cause), stream')
        ∧ brokenPair.LeadsAstray 0 cause := by
  have made : GraphDraft.triangleGraph.Made := .built GraphDraft.build_triangle
  refine ⟨fun stream => ?_, ?_⟩
  · exact (draw_full randomWalk (.made made) (by decide) (by decide) stream).resolve_right
      fun ⟨_, _, _, _, unmade, _⟩ => unmade made
  · have fails : (randomWalk.draw brokenPair 0 1 (Random.Stream.ofSeed 1)).1.isOk = false := by
      decide +kernel
    rcases draw_full randomWalk held_brokenPair (show 0 < 2 by decide) (show 1 ≤ 2 - 1 by decide)
        (Random.Stream.ofSeed 1) with ⟨xs, stream', run, -⟩ | ⟨cause, stream', run, -, -, astray⟩
    · rw [run] at fails
      cases fails
    · exact ⟨cause, stream', run, astray⟩

end Sampler

end NeighborGraph
