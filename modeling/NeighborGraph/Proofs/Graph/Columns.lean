import NeighborGraph.Graph.File
import NeighborGraph.Proofs.Graph.Steps

/-!
# Columns keep the order of their names

`PropertyStore.Ordered` is the invariant of a store: names ascend, so no name occurs twice, and every
column holds one value per node.  Inserting keeps it, wherever the name belongs and whether or not it
is taken (`ordered_insert`).

An ordered store is rebuilt by inserting its columns one after the other (`insertColumns_eq`): each
of them belongs behind all before it.  The store of a draft is ordered after any steps
(`ordered_run`).
-/

namespace NeighborGraph

namespace PropertyStore

/-- Names ascend, and every column has one value for each of `nodeCount` nodes. -/
structure Ordered (columns : List (String × Column)) (nodeCount : Nat) : Prop where
  names : columns.Pairwise fun a b => a.1 < b.1
  sizes : ∀ named ∈ columns, named.2.size = nodeCount

theorem ordered_nil (nodeCount : Nat) : Ordered [] nodeCount :=
  ⟨List.Pairwise.nil, fun _ member => absurd member List.not_mem_nil⟩

theorem lt_of_not_lt {a b : String} (h : ¬a < b) (other : a ≠ b) : b < a := by
  apply String.not_le.mp
  intro reverse
  exact other (String.le_antisymm reverse (String.not_lt.mp h))

/-- A name is placed or stays; every other column stays. -/
theorem mem_place {name : String} {column : Column} {columns : List (String × Column)}
    {named : String × Column} (member : named ∈ place name column columns) :
    named = (name, column) ∨ named ∈ columns := by
  induction columns with
  | nil => exact .inl (List.mem_singleton.mp member)
  | cons front rest ih =>
    obtain ⟨other, old⟩ := front
    rw [place] at member
    split at member
    · exact List.mem_cons.mp member
    · split at member
      · rcases List.mem_cons.mp member with placed | later
        · exact .inl placed
        · exact .inr (List.mem_cons_of_mem _ later)
      · rcases List.mem_cons.mp member with stays | later
        · exact .inr (stays ▸ List.mem_cons_self)
        · rcases ih later with placed | behind
          · exact .inl placed
          · exact .inr (List.mem_cons_of_mem _ behind)

theorem pairwise_place (name : String) (column : Column) {columns : List (String × Column)}
    (names : columns.Pairwise fun a b => a.1 < b.1) :
    (place name column columns).Pairwise fun a b => a.1 < b.1 := by
  induction columns with
  | nil => exact List.pairwise_singleton _ _
  | cons front rest ih =>
    obtain ⟨other, old⟩ := front
    obtain ⟨least, ordered⟩ := List.pairwise_cons.mp names
    by_cases before : name < other
    · rw [place, if_pos before, List.pairwise_cons]
      refine ⟨?_, names⟩
      intro named member
      rcases List.mem_cons.mp member with rfl | later
      · exact before
      · exact String.lt_trans before (least named later)
    · by_cases taken : name = other
      · rw [place, if_neg before, if_pos taken, List.pairwise_cons]
        exact ⟨taken ▸ least, ordered⟩
      · rw [place, if_neg before, if_neg taken, List.pairwise_cons]
        refine ⟨?_, ih ordered⟩
        intro named member
        rcases mem_place member with rfl | later
        · exact lt_of_not_lt before taken
        · exact least named later

/-- Inserting a column keeps the order, also over an earlier one of the same name. -/
theorem ordered_insert {s s' : PropertyStore} {name : String} {column : Column} {nodeCount : Nat}
    (h : Ordered s.columns nodeCount) (done : s.insert name column nodeCount = .ok s') :
    Ordered s'.columns nodeCount := by
  by_cases fits : column.size = nodeCount
  · rw [insert, if_pos fits] at done
    cases done
    refine ⟨pairwise_place name column h.names, ?_⟩
    intro named member
    rcases mem_place member with rfl | stays
    · exact fits
    · exact h.sizes named stays
  · rw [insert, if_neg fits] at done
    cases done

/-- A name behind all others is placed last. -/
theorem place_of_last {name : String} {column : Column} {columns : List (String × Column)}
    (last : ∀ named ∈ columns, named.1 < name) :
    place name column columns = columns ++ [(name, column)] := by
  induction columns with
  | nil => rfl
  | cons front rest ih =>
    obtain ⟨other, old⟩ := front
    have before : other < name := last _ List.mem_cons_self
    have free : name ≠ other := by
      rintro rfl
      exact String.lt_irrefl name before
    rw [place, if_neg (String.lt_asymm before), if_neg free,
      ih fun named member => last named (List.mem_cons_of_mem _ member), List.cons_append]

end PropertyStore

/-! ### Columns of a draft -/

namespace GraphDraft

open PropertyStore

theorem properties_record (b : GraphDraft) (source target : UInt64) (property : Binary64) :
    (b.record source target property).properties = b.properties
      ∧ (b.record source target property).nodeCount = b.nodeCount := by
  rw [record_eq]
  split <;> exact ⟨rfl, rfl⟩

/-- One step keeps the columns in order. -/
theorem ordered_step {b : GraphDraft} (h : Ordered b.properties.columns b.nodeCount.toNat)
    (step : GraphStep) :
    Ordered (b.attempt step).properties.columns (b.attempt step).nodeCount.toNat := by
  cases step with
  | relate source target =>
    obtain ⟨columns, nodes⟩ := properties_record b source target .nan
    simp only [attempt, apply, relate]
    cases b.check source target with
    | error fault => exact h
    | ok passed =>
      simp only [columns, nodes]
      exact h
  | relateWith source target property =>
    obtain ⟨columns, nodes⟩ := properties_record b source target property
    simp only [attempt, apply, relateWith]
    cases b.check source target with
    | error fault => exact h
    | ok passed =>
      simp only [columns, nodes]
      exact h
  | orient both => exact h
  | encodeAs mode => exact h
  | aggregateBy aggregation => exact h
  | addColumn name column =>
    simp only [attempt, apply, addColumn]
    cases inserted : b.properties.insert name column b.nodeCount.toNat with
    | error fault => exact h
    | ok properties => exact ordered_insert h inserted

/-- Any steps keep the columns in order. -/
theorem ordered_run {b : GraphDraft} (h : Ordered b.properties.columns b.nodeCount.toNat)
    (steps : List GraphStep) :
    Ordered (b.run steps).properties.columns (b.run steps).nodeCount.toNat := by
  induction steps generalizing b with
  | nil => exact h
  | cons step steps ih => exact ih (ordered_step h step)

end GraphDraft

/-! ### Columns of a file -/

namespace GraphFile

open PropertyStore

theorem foldlM_insert_eq {nodeCount : Nat} (before columns : List (String × Column))
    (h : Ordered (before ++ columns) nodeCount) :
    columns.foldlM (fun (store : PropertyStore) (name, column) => store.insert name column nodeCount)
      ⟨before⟩ = (.ok ⟨before ++ columns⟩ : Checked PropertyStore) := by
  induction columns generalizing before with
  | nil =>
    rw [List.append_nil]
    rfl
  | cons named columns ih =>
    obtain ⟨name, column⟩ := named
    have last : ∀ other ∈ before, other.1 < name := fun other member =>
      (List.pairwise_append.mp h.names).2.2 other member _ List.mem_cons_self
    have fits : column.size = nodeCount :=
      h.sizes (name, column) (List.mem_append_right _ List.mem_cons_self)
    have whole : before ++ (name, column) :: columns = (before ++ [(name, column)]) ++ columns := by
      rw [List.append_assoc]
      rfl
    rw [whole] at h ⊢
    rw [List.foldlM_cons]
    show (PropertyStore.insert ⟨before⟩ name column nodeCount >>= _) = _
    rw [PropertyStore.insert, if_pos fits, place_of_last last]
    exact ih _ h

/-- Columns that are inserted one after the other end up in order. -/
theorem ordered_foldlM_insert {nodeCount : Nat} {columns : List (String × Column)}
    {s s' : PropertyStore} (h : Ordered s.columns nodeCount)
    (done : columns.foldlM (fun (store : PropertyStore) (name, column) =>
      store.insert name column nodeCount) s = (.ok s' : Checked PropertyStore)) :
    Ordered s'.columns nodeCount := by
  induction columns generalizing s with
  | nil =>
    cases done
    exact h
  | cons named columns ih =>
    obtain ⟨name, column⟩ := named
    rw [List.foldlM_cons] at done
    cases inserted : s.insert name column nodeCount with
    | error fault =>
      simp only [inserted] at done
      cases done
    | ok next =>
      simp only [inserted] at done
      exact ih (ordered_insert h inserted) done

theorem ordered_insertColumns {nodeCount : Nat} {columns : List (String × Column)}
    {s : PropertyStore} (done : insertColumns nodeCount columns = .ok s) :
    Ordered s.columns nodeCount :=
  ordered_foldlM_insert (ordered_nil nodeCount) done

/-- An ordered store is rebuilt from its columns. -/
theorem insertColumns_eq {s : PropertyStore} {nodeCount : Nat} (h : Ordered s.columns nodeCount) :
    insertColumns nodeCount s.columns = .ok s :=
  foldlM_insert_eq [] s.columns h

end GraphFile

end NeighborGraph
