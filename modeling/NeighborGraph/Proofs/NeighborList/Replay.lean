import Mathlib.Data.List.Perm.Subperm
import NeighborGraph.Proofs.NeighborList.Best

/-!
# Offers replayed

A list is settled by the candidates that were offered to it, one after the other: picking neighbors
for comparison changes only their marks, and marks have no part in what is taken and what leaves.
`NeighborList.replay` makes the list again from the offers, and `NeighborList.accepted` tells which
of the offers changed it.

No candidate is accepted twice (`nodup_accepted`).  One that is still in the list is refused, and one
that was given up, or never taken, comes after all neighbors of a full list; a list that holds the
best of what was offered stays that way, so this is so forever.  There are no more acceptances, then,
than there are other nodes.
-/

namespace NeighborGraph.NeighborList

/-! ### Marks -/

/-- The neighbor as it came. -/
def unmark (x : Neighbor) : Neighbor := { x with checked := false }

/-- The list with none of its neighbors picked. -/
def unmarked (l : NeighborList) : NeighborList := { l with entries := l.entries.map unmark }

theorem unmarked_check (l : NeighborList) (picked : List Nat) :
    (l.check picked).unmarked = l.unmarked := by
  show NeighborList.mk _ ((l.entries.map (marked picked)).map unmark) = _
  rw [List.map_map, unmarked]
  congr 1
  apply List.map_congr_left
  intro x _
  show unmark (marked picked x) = unmark x
  rw [marked]
  split <;> rfl

theorem scores_unmarked (l : NeighborList) : l.unmarked.scores = l.scores := by
  rw [scores, unmarked, List.map_map]
  rfl

theorem map_unmark_place (x : Neighbor) (entries : List Neighbor) :
    (place x entries).map unmark = place (unmark x) (entries.map unmark) := by
  induction entries with
  | nil => rfl
  | cons y rest ih =>
    have same : (unmark y).precedes (unmark x) = y.precedes x := rfl
    rw [List.map_cons, place, place, same]
    split
    · rw [List.map_cons, ih]
    · rfl

theorem refuses_unmarked (l : NeighborList) (owner candidate : Nat) (similarity : Float) :
    l.unmarked.refuses owner candidate similarity = l.refuses owner candidate similarity := by
  have contains : l.unmarked.contains candidate = l.contains candidate := by
    rw [NeighborList.contains, unmarked, List.any_map]
    rfl
  rw [refuses, refuses, contains]
  rfl

/-- Marks have no part in an offer. -/
theorem add_unmarked (l : NeighborList) (owner candidate : Nat) (similarity : Float) :
    l.unmarked.add owner candidate similarity
      = ((l.add owner candidate similarity).1, (l.add owner candidate similarity).2.unmarked) := by
  have late : l.unmarked.entries.all (·.precedes { id := candidate, similarity })
      = l.entries.all (·.precedes { id := candidate, similarity }) := by
    rw [unmarked, List.all_map]
    rfl
  have length : l.unmarked.entries.length = l.entries.length := List.length_map _
  have last : l.unmarked.entries.dropLast = l.entries.dropLast.map unmark := List.map_dropLast.symm
  have placed (entries : List Neighbor) :
      NeighborList.mk l.capacity (place { id := candidate, similarity } (entries.map unmark))
        = unmarked { l with entries := place { id := candidate, similarity } entries } :=
    congrArg (NeighborList.mk l.capacity)
      (map_unmark_place { id := candidate, similarity } entries).symm
  rw [add, add, refuses_unmarked]
  dsimp only
  rw [late, length, last, show l.unmarked.capacity = l.capacity from rfl]
  split
  · rfl
  · split
    · exact Prod.ext rfl (placed l.entries)
    · split
      · rfl
      · exact Prod.ext rfl (placed l.entries.dropLast)

/-! ### Replaying -/

section Replay

variable (similarity : Nat → Option Float) (owner capacity : Nat)

/-- Offers a candidate, unless it has no number as its similarity; also whether the list changed. -/
def hear (l : NeighborList) (candidate : Nat) : Bool × NeighborList :=
  match (similarity candidate).filter (!·.isNaN) with
  | none => (false, l)
  | some s => l.add owner candidate s

/-- The list that some offers lead to, the latest offer being the first. -/
def replay : (offers : List Nat) → NeighborList
  | [] => { capacity }
  | candidate :: earlier => (hear similarity owner (replay earlier) candidate).2

/-- The offers that changed the list, the latest one first. -/
def accepted : (offers : List Nat) → List Nat
  | [] => []
  | candidate :: earlier =>
    if (hear similarity owner (replay similarity owner capacity earlier) candidate).1 then
      candidate :: accepted earlier
    else accepted earlier

end Replay

variable {similarity : Nat → Option Float} {owner capacity : Nat}

theorem hear_of_none {l : NeighborList} {candidate : Nat}
    (nothing : (similarity candidate).filter (!·.isNaN) = none) :
    hear similarity owner l candidate = (false, l) := by
  rw [hear, nothing]

theorem hear_of_some {l : NeighborList} {candidate : Nat} {s : Float}
    (value : similarity candidate = some s) (number : s.isNaN = false) :
    hear similarity owner l candidate = l.add owner candidate s := by
  have found : (similarity candidate).filter (!·.isNaN) = some s := by
    rw [value, Option.filter_some, number]
    rfl
  rw [hear, found]

/-- A candidate has no number as its similarity, or it has one. -/
theorem heard_cases (similarity : Nat → Option Float) (candidate : Nat) :
    (similarity candidate).filter (!·.isNaN) = none
      ∨ ∃ s, similarity candidate = some s ∧ s.isNaN = false := by
  cases found : (similarity candidate).filter (!·.isNaN) with
  | none => exact .inl rfl
  | some s =>
    obtain ⟨value, number⟩ := Option.filter_eq_some_iff.mp found
    rw [Bool.not_eq_true'] at number
    exact .inr ⟨s, value, number⟩

/-- A replayed list is valid and holds the best of the other nodes that were offered. -/
theorem best_replay (offers : List Nat) :
    (replay similarity owner capacity offers).Valid owner
      ∧ Best similarity (fun u => u ∈ offers ∧ u ≠ owner)
        (replay similarity owner capacity offers) := by
  induction offers with
  | nil =>
    refine ⟨valid_empty capacity owner, (best_empty similarity capacity).widen ?_ ?_⟩
    · exact fun _ none => none.elim
    · exact fun u s none _ _ => List.not_mem_nil none.1
  | cons candidate earlier ih =>
    obtain ⟨valid, best⟩ := ih
    rw [replay]
    rcases heard_cases similarity candidate with nothing | ⟨s, value, number⟩
    · rw [hear_of_none nothing]
      refine ⟨valid, best.widen (fun u known => ⟨List.mem_cons_of_mem _ known.1, known.2⟩) ?_⟩
      rintro u s ⟨now, other⟩ value number
      rcases List.mem_cons.mp now with rfl | before
      · rw [value, Option.filter_some, number] at nothing
        cases nothing
      · exact ⟨before, other⟩
    · rw [hear_of_some value number]
      refine ⟨valid_add valid candidate s, ?_⟩
      by_cases other : candidate = owner
      · -- the owner itself is refused
        have same : ((replay similarity owner capacity earlier).add owner candidate s).2
            = replay similarity owner capacity earlier := by
          rw [add, if_pos (by rw [refuses, beq_iff_eq.mpr other]; rfl)]
        rw [same]
        refine best.widen (fun u known => ⟨List.mem_cons_of_mem _ known.1, known.2⟩) ?_
        rintro u s' ⟨now, different⟩ _ _
        rcases List.mem_cons.mp now with rfl | before
        · exact absurd other different
        · exact ⟨before, different⟩
      · refine (best_add best value valid number other).widen ?_ ?_
        · rintro u (rfl | known)
          · exact ⟨List.mem_cons_self, other⟩
          · exact ⟨List.mem_cons_of_mem _ known.1, known.2⟩
        · rintro u s' ⟨now, different⟩ _ _
          rcases List.mem_cons.mp now with rfl | before
          · exact .inl rfl
          · exact .inr ⟨before, different⟩

/-! ### Acceptances -/

/-- What was offered before changes nothing. -/
theorem add_of_offered {offered : Nat → Prop} {l : NeighborList}
    (h : Best similarity offered l) {candidate : Nat} {s : Float} (before : offered candidate)
    (value : similarity candidate = some s) : (l.add owner candidate s).1 = false := by
  by_cases refused : l.refuses owner candidate s = true
  · rw [add, if_pos refused]
  · obtain ⟨-, -, number, new⟩ := of_not_refuses refused
    obtain ⟨full, late⟩ := (h.kept candidate s before value number).resolve_left new
    rw [← List.all_eq_true] at late
    rw [add, if_neg refused, if_neg (by omega), if_pos late]

/-- An offer that changes the list is one of another node. -/
theorem other_of_add {l : NeighborList} {candidate : Nat} {s : Float}
    (changed : (l.add owner candidate s).1 = true) : candidate ≠ owner := by
  intro same
  rw [add, if_pos (by rw [refuses, beq_iff_eq.mpr same]; rfl)] at changed
  cases changed

/-- What is accepted is new, and another node. -/
theorem new_of_hear {offers : List Nat} {candidate : Nat}
    (changed : (hear similarity owner (replay similarity owner capacity offers) candidate).1 = true) :
    candidate ∉ offers ∧ candidate ≠ owner := by
  rcases heard_cases similarity candidate with nothing | ⟨s, value, number⟩
  · rw [hear_of_none nothing] at changed
    cases changed
  · rw [hear_of_some value number] at changed
    have other := other_of_add changed
    refine ⟨fun before => ?_, other⟩
    rw [add_of_offered (best_replay offers).2 ⟨before, other⟩ value] at changed
    cases changed

theorem mem_accepted {offers : List Nat} {u : Nat}
    (h : u ∈ accepted similarity owner capacity offers) : u ∈ offers ∧ u ≠ owner := by
  induction offers with
  | nil => cases h
  | cons candidate earlier ih =>
    rw [accepted] at h
    split at h
    · next changed =>
      rcases List.mem_cons.mp h with rfl | before
      · exact ⟨List.mem_cons_self, (new_of_hear changed).2⟩
      · exact ⟨List.mem_cons_of_mem _ (ih before).1, (ih before).2⟩
    · exact ⟨List.mem_cons_of_mem _ (ih h).1, (ih h).2⟩

/-- No candidate is accepted twice. -/
theorem nodup_accepted (offers : List Nat) :
    (accepted similarity owner capacity offers).Nodup := by
  induction offers with
  | nil => exact .nil
  | cons candidate earlier ih =>
    rw [accepted]
    split
    · next changed =>
      refine List.nodup_cons.mpr ⟨fun again => ?_, ih⟩
      exact (new_of_hear changed).1 (mem_accepted again).1
    · exact ih

/-- There are no more acceptances than other nodes. -/
theorem length_accepted_le {offers : List Nat} {n : Nat} (owned : owner < n)
    (inside : ∀ u ∈ accepted similarity owner capacity offers, u < n) :
    (accepted similarity owner capacity offers).length ≤ n - 1 := by
  have others : accepted similarity owner capacity offers ⊆ (List.range n).erase owner := by
    intro u member
    refine (List.mem_erase_of_ne (mem_accepted member).2).mpr ?_
    exact List.mem_range.mpr (inside u member)
  have fewer := ((nodup_accepted offers).subperm others).length_le
  rw [List.length_erase_of_mem (List.mem_range.mpr owned), List.length_range] at fewer
  exact fewer

/-- Candidates without a number as their similarity change nothing. -/
theorem replay_of_nothing {candidates : List Nat}
    (nothing : ∀ u ∈ candidates, (similarity u).filter (!·.isNaN) = none) (earlier : List Nat) :
    replay similarity owner capacity (candidates ++ earlier)
        = replay similarity owner capacity earlier
      ∧ accepted similarity owner capacity (candidates ++ earlier)
        = accepted similarity owner capacity earlier := by
  induction candidates with
  | nil => exact ⟨rfl, rfl⟩
  | cons u rest ih =>
    obtain ⟨list, acceptances⟩ := ih fun v member => nothing v (List.mem_cons_of_mem _ member)
    rw [List.cons_append, replay, accepted, hear_of_none (nothing u List.mem_cons_self)]
    exact ⟨list, acceptances⟩

/-- Acceptances are never taken back. -/
theorem accepted_suffix (later earlier : List Nat) :
    accepted similarity owner capacity earlier
      <:+ accepted similarity owner capacity (later ++ earlier) := by
  induction later with
  | nil => exact List.suffix_rfl
  | cons candidate later ih =>
    rw [List.cons_append, accepted]
    split
    · exact ih.trans (List.suffix_cons _ _)
    · exact ih

theorem mem_accepted_append {later earlier : List Nat} {u : Nat}
    (h : u ∈ accepted similarity owner capacity (later ++ earlier)) :
    u ∈ later ∨ u ∈ accepted similarity owner capacity earlier := by
  induction later with
  | nil => exact .inr h
  | cons candidate later ih =>
    rw [List.cons_append, accepted] at h
    have others (before : u ∈ accepted similarity owner capacity (later ++ earlier)) :
        u ∈ candidate :: later ∨ u ∈ accepted similarity owner capacity earlier :=
      (ih before).imp_left (List.mem_cons_of_mem _)
    split at h
    · rcases List.mem_cons.mp h with rfl | before
      · exact .inl List.mem_cons_self
      · exact others before
    · exact others h

/-- Once all candidates have been offered, none is accepted any more. -/
theorem accepted_of_offered {later earlier : List Nat}
    (before : ∀ u ∈ later, u ≠ owner → u ∈ earlier) :
    accepted similarity owner capacity (later ++ earlier)
      = accepted similarity owner capacity earlier := by
  induction later with
  | nil => rfl
  | cons candidate later ih =>
    have others := ih fun u member => before u (List.mem_cons_of_mem _ member)
    rw [List.cons_append, accepted, others]
    refine if_neg fun changed => ?_
    obtain ⟨new, other⟩ := new_of_hear changed
    exact new (List.mem_append_right _ (before candidate List.mem_cons_self other))

end NeighborGraph.NeighborList
