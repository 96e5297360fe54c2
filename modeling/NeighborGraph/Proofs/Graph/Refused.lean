import NeighborGraph.Proofs.Graph.File

/-!
# Files that are refused

Whatever is wrong with the header, the sections, the description or the layout of a file is reported
as corruption, with its cause.  Columns are looked at last, and one by one: the first of them that does
not hold one value per node is refused the way a caller's column is, as an argument
(`foldlM_insert_cases`).  There is no third way for a reader to fail, and no bytes make it crash
(`decode_outcomes`).
-/

namespace NeighborGraph.GraphFile

/-- Whether a column does not hold one value per node. -/
def misfits (nodeCount : Nat) (named : String × Column) : Bool := named.2.size != nodeCount

/-- The fault of the first column that does not fit, if there is one. -/
def misfit? (nodeCount : Nat) (columns : List (String × Column)) : Option Fault :=
  (columns.find? (misfits nodeCount)).map fun named =>
    .invalidArgument (.columnLength named.1 named.2.size nodeCount)

/-- Columns are inserted, or the first that does not fit is refused. -/
theorem foldlM_insert_cases (nodeCount : Nat) (columns : List (String × Column))
    (store : PropertyStore) :
    let inserted : Checked PropertyStore := columns.foldlM
      (fun (store : PropertyStore) (name, column) => store.insert name column nodeCount) store
    (misfit? nodeCount columns = none ∧ ∃ store', inserted = .ok store')
      ∨ ∃ fault, misfit? nodeCount columns = some fault ∧ inserted = .error fault := by
  induction columns generalizing store with
  | nil => exact .inl ⟨rfl, store, rfl⟩
  | cons named columns ih =>
    obtain ⟨name, column⟩ := named
    intro inserted
    by_cases fits : column.size = nodeCount
    · have passes : misfits nodeCount (name, column) = false := by
        rw [misfits, fits, bne_self_eq_false]
      have same : misfit? nodeCount ((name, column) :: columns) = misfit? nodeCount columns := by
        rw [misfit?, misfit?, List.find?_cons_of_neg (by rw [passes]; exact Bool.false_ne_true)]
      have next : store.insert name column nodeCount
          = .ok ⟨PropertyStore.place name column store.columns⟩ := if_pos fits
      have rest : inserted = columns.foldlM (fun (store : PropertyStore) (name, column) =>
          store.insert name column nodeCount) ⟨PropertyStore.place name column store.columns⟩ := by
        show (store.insert name column nodeCount >>= _) = _
        rw [next]
        rfl
      rw [same, rest]
      exact ih _
    · have refused : misfits nodeCount (name, column) = true := bne_iff_ne.mpr fits
      have first : store.insert name column nodeCount
          = .error (.invalidArgument (.columnLength name column.size nodeCount)) := if_neg fits
      refine .inr ⟨.invalidArgument (.columnLength name column.size nodeCount), ?_, ?_⟩
      · rw [misfit?, List.find?_cons_of_pos refused]
        rfl
      · show (store.insert name column nodeCount >>= _) = _
        rw [first]
        rfl

/-- What becomes of the bytes of a file: a graph, if the sections are accepted and every column fits; a
report of corruption, if the sections are not accepted; and if they are but a column does not fit, the
fault of the first such column, which is not a report of corruption. -/
theorem decode_outcomes (bytes : List UInt8) :
    (∃ h d adjacency g, decodeSections bytes = .ok (h, d, adjacency)
        ∧ misfit? h.nodeCount.toNat d.columns = none ∧ decode bytes = .ok g)
      ∨ (∃ cause, decodeSections bytes = .error cause
        ∧ decode bytes = .error (.corruption cause))
      ∨ ∃ h d adjacency name column, decodeSections bytes = .ok (h, d, adjacency)
        ∧ d.columns.find? (misfits h.nodeCount.toNat) = some (name, column)
        ∧ decode bytes
          = .error (.invalidArgument (.columnLength name column.size h.nodeCount.toNat)) := by
  rw [decode]
  cases sections : decodeSections bytes with
  | error cause => exact .inr (.inl ⟨cause, rfl, rfl⟩)
  | ok found =>
    obtain ⟨h, d, adjacency⟩ := found
    dsimp only
    rcases foldlM_insert_cases h.nodeCount.toNat d.columns {} with
      ⟨fit, store, inserted⟩ | ⟨fault, misfit, inserted⟩
    · have fitting : insertColumns h.nodeCount.toNat d.columns = .ok store := inserted
      exact .inl ⟨h, d, adjacency, _, rfl, fit, by rw [fitting]; rfl⟩
    · obtain ⟨⟨name, column⟩, first, rfl⟩ := Option.map_eq_some_iff.mp misfit
      have refused : insertColumns h.nodeCount.toNat d.columns
          = .error (.invalidArgument (.columnLength name column.size h.nodeCount.toNat)) := inserted
      exact .inr (.inr ⟨h, d, adjacency, name, column, rfl, first, by rw [refused]; rfl⟩)

/-- One node, and a column of two values. -/
def overfullGraph : CompressedGraph :=
  { CompressedGraph.empty 1 with properties := ⟨[("a", .long #[7, 8])]⟩ }

/-- A file that contradicts itself, as its checksum does not tell, and that is not reported as
corrupt. -/
theorem misfit_is_no_corruption :
    ∃ h d adjacency, decodeSections (encode overfullGraph) = .ok (h, d, adjacency)
      ∧ h.nodeCount = 1 ∧ d.columns = [("a", .long #[7, 8])]
      ∧ decode (encode overfullGraph) = .error (.invalidArgument (.columnLength "a" 2 1)) := by
  have laidOut : overfullGraph.LaidOut := by
    have plain := CompressedGraph.laidOut_empty 1
    exact ⟨plain.offsets, plain.degrees, plain.ascending, plain.stop, plain.fits, plain.count⟩
  have described : (describe overfullGraph).encode.length = 81 := by decide +kernel
  have length : (encode overfullGraph).length = 129 := by
    rw [length_encode, described]
    rfl
  have sections := sections_of_header (by rw [length]; decide) laidOut (by rw [described]; decide)
    (decode_header_encode overfullGraph) rfl (drop_encode overfullGraph)
  refine ⟨_, _, _, sections, rfl, rfl, ?_⟩
  rw [decode, sections]
  rfl

end NeighborGraph.GraphFile
