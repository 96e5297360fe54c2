import NeighborGraph.Descent.LocalJoin
import NeighborGraph.Proofs.Random.Distinct
import NeighborGraph.Proofs.Random.Total
import NeighborGraph.Runs

/-!
# Candidates in both directions

`Descent.combineInto` fills buffers that earlier calls have used.  It empties them first, so what they
held makes no difference, and every node that was seen is one that was put in (`Buffers.Agree`).  From
then on the buffers hold the nodes entered so far without their repetitions (`Buffers.out_enterAll`).

So the result is a union without repetitions, and one of limited size (`Descent.combineInto_unites`):
first all forward candidates in the order of their first occurrence, then those of the picked reverse
candidates that are not among them.
-/

namespace NeighborGraph

open NeighborGraph.Action

namespace Descent

/-! ### Buffers -/

namespace Buffers

/-- The nodes that were seen are those that were put in. -/
def Agree (b : Buffers) : Prop := ∀ node, node ∈ b.seen ↔ node ∈ b.out.toList

theorem agree_clear (b : Buffers) : b.clear.Agree := fun _ => Iff.rfl

theorem enter_seen {b : Buffers} {node : Nat} (seen : node ∈ b.seen) : b.enter node = b := by
  rw [enter, if_pos (List.contains_iff_mem.mpr seen)]

theorem enter_new {b : Buffers} {node : Nat} (new : node ∉ b.seen) :
    b.enter node = { seen := node :: b.seen, out := b.out.push node } := by
  rw [enter, if_neg fun seen => new (List.contains_iff_mem.mp seen)]

theorem agree_enter {b : Buffers} (agree : b.Agree) (node : Nat) : (b.enter node).Agree := by
  by_cases seen : node ∈ b.seen
  · rw [enter_seen seen]
    exact agree
  · rw [enter_new seen]
    intro u
    rw [List.mem_cons, Array.toList_push, List.mem_append, List.mem_singleton, agree u, or_comm]

/-- What is entered follows what is there, without repetitions. -/
theorem out_enterAll {b : Buffers} (agree : b.Agree) (nodes : List Nat) :
    (nodes.foldl enter b).Agree
      ∧ (nodes.foldl enter b).out.toList
        = b.out.toList ++ (nodes.filter (· ∉ b.out.toList)).eraseDups := by
  induction nodes generalizing b with
  | nil => exact ⟨agree, (List.append_nil _).symm⟩
  | cons node rest ih =>
    obtain ⟨agree', entered⟩ := ih (agree_enter agree node)
    refine ⟨agree', entered.trans ?_⟩
    by_cases seen : node ∈ b.seen
    · have there : ¬decide (node ∉ b.out.toList) = true := by
        simpa using (agree node).mp seen
      rw [enter_seen seen, List.filter_cons, if_neg there]
    · have absent : decide (node ∉ b.out.toList) = true := by
        simpa using fun there => seen ((agree node).mpr there)
      rw [enter_new seen, List.filter_cons, if_pos absent, List.eraseDups_cons, List.filter_filter,
        Array.toList_push, List.append_assoc, List.singleton_append]
      have later : rest.filter (· ∉ b.out.toList ++ [node])
          = rest.filter fun u => !(u == node) && decide (u ∉ b.out.toList) := by
        refine List.filter_congr fun u _ => ?_
        rw [Bool.eq_iff_iff]
        simp [and_comm]
      rw [later]

end Buffers

/-- The forward candidates, then the picked ones that are not among them. -/
theorem out_combined (forward picked : List Nat) (before : Buffers) :
    (picked.foldl Buffers.enter (forward.foldl Buffers.enter before.clear)).out.toList
      = forward.eraseDups ++ (picked.filter (· ∉ forward)).eraseDups := by
  obtain ⟨agree, ahead⟩ := Buffers.out_enterAll before.agree_clear forward
  have all : forward.filter (· ∉ before.clear.out.toList) = forward :=
    List.filter_eq_self.mpr fun u _ => decide_eq_true List.not_mem_nil
  have ahead : (forward.foldl Buffers.enter before.clear).out.toList = forward.eraseDups := by
    rw [ahead, all]
    rfl
  have behind : picked.filter (· ∉ forward.eraseDups) = picked.filter (· ∉ forward) :=
    List.filter_congr fun u _ => decide_eq_decide.mpr (not_congr List.mem_eraseDups)
  rw [(Buffers.out_enterAll agree picked).2, ahead, behind]

/-! ### Picked candidates -/

/-- There is a candidate at every place that is not beyond the end. -/
theorem mapM_reverseAt {reverse places : List Nat} (inside : ∀ place ∈ places, place < reverse.length) :
    places.mapM (reverseAt reverse) = .ok (places.filterMap fun place => reverse[place]?) := by
  induction places with
  | nil => rfl
  | cons place rest ih =>
    have others := ih fun other member => inside other (List.mem_cons_of_mem _ member)
    have here : place < reverse.length := inside place List.mem_cons_self
    have there : reverse[place]? = some reverse[place] := List.getElem?_eq_getElem here
    have found : reverseAt reverse place = .ok reverse[place] := by rw [reverseAt, there]
    rw [List.mapM_cons, found, others, List.filterMap_cons_some there]
    rfl

/-- The reverse candidates that are picked from a stream, and the stream after that: all of them without
a draw if there are few, and otherwise those at places of a sample. -/
def Picks (sampleSize : Nat) (reverse : List Nat) (stream : Random.Stream) (picked : List Nat)
    (stream' : Random.Stream) : Prop :=
  (reverse.length ≤ sampleSize ∧ picked = reverse ∧ stream' = stream)
    ∨ (sampleSize < reverse.length ∧ ∃ places,
        Random.sample reverse.length sampleSize stream = (.ok places, stream')
          ∧ Random.Sampled reverse.length sampleSize places
          ∧ picked = places.filterMap fun place => reverse[place]?)

/-- A sample is drawn only if it is smaller than what it is drawn from, and then there is a candidate at
all of its places. -/
theorem pickReverse_picks (sampleSize : Nat) (reverse : List Nat) (stream : Random.Stream) :
    ∃ picked stream', pickReverse sampleSize reverse stream = (.ok picked, stream')
      ∧ Picks sampleSize reverse stream picked stream' := by
  by_cases few : reverse.length ≤ sampleSize
  · refine ⟨reverse, stream, ?_, .inl ⟨few, rfl, rfl⟩⟩
    rw [pickReverse, if_pos few]
    rfl
  · have many : sampleSize < reverse.length := Nat.lt_of_not_le few
    rcases Random.sample_total (Nat.le_of_lt many) stream trivial with
      ⟨places, stream', drawn, -⟩ | ⟨_, _, _, none⟩
    · have sampled := Random.sample_distinct _ _ stream places stream' trivial drawn
      refine ⟨_, stream', ?_, .inr ⟨many, places, drawn, sampled, rfl⟩⟩
      rw [pickReverse, if_neg few, bind_ok drawn, mapM_reverseAt sampled.below]
      rfl
    · exact none.elim

/-- As many as asked for, at most. -/
theorem Picks.length_le {sampleSize : Nat} {reverse picked : List Nat} {stream stream' : Random.Stream}
    (h : Picks sampleSize reverse stream picked stream') : picked.length ≤ sampleSize := by
  rcases h with ⟨few, rfl, -⟩ | ⟨-, places, -, sampled, rfl⟩
  · exact few
  · exact Nat.le_trans (List.length_filterMap_le _ _) (Nat.le_of_eq sampled.complete)

theorem Picks.subset {sampleSize : Nat} {reverse picked : List Nat} {stream stream' : Random.Stream}
    (h : Picks sampleSize reverse stream picked stream') : picked ⊆ reverse := by
  rcases h with ⟨-, rfl, -⟩ | ⟨-, places, -, -, rfl⟩
  · exact List.Subset.refl _
  · intro node member
    obtain ⟨place, -, found⟩ := List.mem_filterMap.mp member
    exact List.mem_of_getElem? found

theorem pickReverse_total (sampleSize : Nat) (reverse : List Nat) :
    (pickReverse sampleSize reverse).Total := by
  intro stream _
  obtain ⟨picked, stream', run, -⟩ := pickReverse_picks sampleSize reverse stream
  exact .inl ⟨picked, stream', run, trivial⟩

theorem pickReverse_yields (sampleSize : Nat) (reverse : List Nat) :
    (pickReverse sampleSize reverse).Yields (· ⊆ reverse) := by
  intro stream found stream' _ run
  obtain ⟨picked, _, run', picks⟩ := pickReverse_picks sampleSize reverse stream
  cases run.symm.trans run'
  exact picks.subset

/-! ### Combined candidates -/

/-- Without the buffers, combining is dropping repetitions. -/
theorem combine_eq (forward reverse : List Nat) (sampleSize : Nat) :
    combine forward reverse sampleSize
      = do return (forward ++ (← pickReverse sampleSize reverse)).eraseDups := by
  funext stream
  obtain ⟨picked, stream', picks, -⟩ := pickReverse_picks sampleSize reverse stream
  have united : (forward ++ picked).eraseDups
      = forward.eraseDups ++ (picked.filter (· ∉ forward)).eraseDups := by
    rw [List.eraseDups_append, List.removeAll]
    congr 2
    refine List.filter_congr fun u _ => ?_
    rw [Bool.eq_iff_iff]
    simp
  have filled : combineInto forward reverse sampleSize {} stream
      = (.ok (picked.foldl Buffers.enter (forward.foldl Buffers.enter {})), stream') := by
    rw [combineInto, bind_ok picks]
    rfl
  rw [combine, bind_ok filled, bind_ok picks, united, ← out_combined forward picked {}]
  rfl

theorem combine_total (forward reverse : List Nat) (sampleSize : Nat) :
    (combine forward reverse sampleSize).Total := by
  rw [combine_eq]
  exact total_then (pickReverse_total sampleSize reverse) fun _ => total_pure _

theorem combine_yields (forward reverse : List Nat) (sampleSize : Nat) :
    (combine forward reverse sampleSize).Yields (· ⊆ forward ++ reverse) := by
  rw [combine_eq]
  refine yields_bind (pickReverse_yields sampleSize reverse) fun picked part => yields_pure ?_
  intro node member
  rcases List.mem_append.mp (List.mem_eraseDups.mp member) with before | behind
  · exact List.mem_append_left _ before
  · exact List.mem_append_right _ (part behind)

/-- Whatever the buffers held and whatever the stream, they end with a union of limited size: different
nodes, first the forward candidates in the order of their first occurrence, then no more than
`sampleSize` reverse candidates that are not among them.  Few reverse candidates are all taken, in their
order and without a draw; of many, those at the places of a sample. -/
theorem combineInto_unites (forward reverse : List Nat) (sampleSize : Nat) (before : Buffers)
    (stream : Random.Stream) :
    ∃ after stream' picked more,
      combineInto forward reverse sampleSize before stream = (.ok after, stream')
        ∧ after.out.toList = forward.eraseDups ++ more
        ∧ after.out.toList.Nodup
        ∧ (∀ u ∈ more, u ∈ reverse ∧ u ∉ forward)
        ∧ more.length ≤ sampleSize
        ∧ more = (picked.filter (· ∉ forward)).eraseDups
        ∧ Picks sampleSize reverse stream picked stream'
        ∧ (reverse.length ≤ sampleSize → more = (reverse.filter (· ∉ forward)).eraseDups
            ∧ ∀ u, u ∈ after.out.toList ↔ u ∈ forward ∨ u ∈ reverse) := by
  obtain ⟨picked, stream', run, picks⟩ := pickReverse_picks sampleSize reverse stream
  have out := out_combined forward picked before
  have new {u : Nat} (member : u ∈ (picked.filter (· ∉ forward)).eraseDups) :
      u ∈ picked ∧ u ∉ forward := by
    obtain ⟨inside, absent⟩ := List.mem_filter.mp (List.mem_eraseDups.mp member)
    exact ⟨inside, of_decide_eq_true absent⟩
  refine ⟨_, stream', picked, _, ?_, out, ?_, ?_, ?_, rfl, picks, fun few => ?_⟩
  · rw [combineInto, bind_ok run]
    rfl
  · rw [out]
    refine List.nodup_append.mpr ⟨nodup_eraseDups _, nodup_eraseDups _, ?_⟩
    rintro u ahead v behind rfl
    exact (new behind).2 (List.mem_eraseDups.mp ahead)
  · exact fun u member => ⟨picks.subset (new member).1, (new member).2⟩
  · refine Nat.le_trans (List.Subperm.length_le ?_) picks.length_le
    exact (nodup_eraseDups _).subperm fun u member => (new member).1
  · obtain ⟨-, rfl, -⟩ | ⟨many, -⟩ := picks
    · refine ⟨rfl, fun u => ?_⟩
      rw [out, List.mem_append, List.mem_eraseDups, List.mem_eraseDups, List.mem_filter,
        decide_eq_true_iff]
      tauto
    · exact absurd few (Nat.not_le.mpr many)

end Descent

end NeighborGraph
