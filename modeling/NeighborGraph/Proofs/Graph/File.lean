import NeighborGraph.Proofs.Graph.Description
import NeighborGraph.Proofs.Graph.LaidOut

/-!
# Graph files are read back

A graph file is a header, a description and adjacency bytes.  The header is read back field by field
(`decode_header`), the description as its own module says, and the adjacency bytes are what is left.
A reader also checks sizes, the checksum and the layout; `decodeSections_eq_ok` and `checkLayout_eq_ok`
say exactly what it accepts.

So a graph whose offsets and degrees fit it and whose columns are in order is read back from its
file (`decode_encode`), and every graph that a caller can make is one.  Only graphs too large for a
file are not written at all.
-/

namespace NeighborGraph

namespace GraphFile

open LittleEndian

/-! ### Checks -/

/-- Steps one after the other succeed if each of them does. -/
theorem bind_eq_ok {ε α β : Type} {r : Except ε α} {f : α → Except ε β} {b : β} :
    r >>= f = .ok b ↔ ∃ a, r = .ok a ∧ f a = .ok b := by
  cases r with
  | error fault => simp [bind, Except.bind]
  | ok a => simp [bind, Except.bind]

theorem error_bind {ε α β : Type} (fault : ε) (f : α → Except ε β) :
    (Except.error fault >>= f) = .error fault := rfl

/-- A check in front of a result lets it pass or takes its place. -/
theorem check_eq_ok {ε α : Type} {p : Prop} [Decidable p] {fault : ε} {r : Except ε α} {a : α} :
    (if p then .error fault else r) = .ok a ↔ ¬p ∧ r = .ok a := by
  by_cases holds : p <;> simp [holds]

/-! ### Layout -/

theorem ascending_iff (words : List UInt64) :
    ascending words = true ↔ words.Pairwise (· ≤ ·) := by
  induction words with
  | nil => exact ⟨fun _ => List.Pairwise.nil, fun _ => rfl⟩
  | cons a words ih =>
    cases words with
    | nil => exact ⟨fun _ => List.pairwise_singleton _ _, fun _ => rfl⟩
    | cons b words =>
      rw [ascending, Bool.and_eq_true, decide_eq_true_eq, ih, List.pairwise_cons (a := a)]
      refine ⟨?_, fun ⟨least, others⟩ => ⟨least b List.mem_cons_self, others⟩⟩
      rintro ⟨step, others⟩
      refine ⟨?_, others⟩
      intro c member
      rcases List.mem_cons.mp member with rfl | later
      · exact step
      · exact UInt64.le_trans step ((List.pairwise_cons.mp others).1 c later)

/-- Degrees are added up in a 64-bit word. -/
theorem foldl_degrees (degrees : List UInt32) (sum : UInt64) :
    degrees.foldl (fun sum degree => sum + degree.toUInt64) sum
      = sum + UInt64.ofNat (degrees.map UInt32.toNat).sum := by
  induction degrees generalizing sum with
  | nil => simp
  | cons degree degrees ih =>
    have word : degree.toUInt64 = UInt64.ofNat degree.toNat := by simp
    rw [List.foldl_cons, ih, List.map_cons, List.sum_cons, UInt64.ofNat_add, word,
      UInt64.add_assoc]

/-- A layout is accepted exactly if offsets and degrees fit the header. -/
theorem checkLayout_eq_ok (h : Header) (d : FileDescription) :
    checkLayout h d = .ok () ↔
      d.offsets.length = h.nodeCount.toNat + 1 ∧ d.degrees.length = h.nodeCount.toNat
        ∧ d.offsets.Pairwise (· ≤ ·) ∧ d.offsets.getLast? = some h.adjacencySize
        ∧ UInt64.ofNat (d.degrees.map UInt32.toNat).sum = h.relationshipCount := by
  rw [checkLayout, ← ascending_iff, foldl_degrees, UInt64.zero_add, check_eq_ok, check_eq_ok,
    check_eq_ok]
  tauto

/-! ### Header -/

theorem field_of_spells {bytes part : List UInt8} {offset size : Nat}
    (h : Spells bytes offset part) (length : part.length = size) :
    Header.field bytes offset size = LittleEndian.decode part := by
  obtain ⟨before, after, rfl, rfl⟩ := h
  rw [Header.field, List.drop_left, ← length, List.take_left]

theorem length_encode_header (h : Header) : h.encode.length = headerSize := by
  simp only [Header.encode, List.length_append, length_word, LittleEndian.length_encode]
  rfl

/-- The parts of a header, one behind the other. -/
theorem encode_header_append (h : Header) (rest : List UInt8) :
    h.encode ++ rest
      = magic ++ (LittleEndian.encode 4 version ++ ([UInt8.ofNat h.mode.tag]
        ++ ([if h.withProperties then 1 else 0] ++ ([0, 0] ++ (word h.nodeCount
        ++ (word h.relationshipCount ++ (word h.descriptionSize ++ (word h.adjacencySize
        ++ (LittleEndian.encode 4 h.checksum.toNat ++ rest))))))))) := by
  simp only [Header.encode, List.append_assoc]
  rfl

theorem decode_tag (mode : Mode) : LittleEndian.decode [UInt8.ofNat mode.tag] = mode.tag := by
  cases mode with
  | plain => rfl
  | varLong => rfl
  | packed tail => cases tail <;> rfl

theorem decode_flag (flag : Bool) :
    (LittleEndian.decode [if flag then 1 else 0] != 0) = flag := by
  cases flag <;> rfl

theorem decode_half (w : UInt32) :
    (LittleEndian.decode (LittleEndian.encode 4 w.toNat)).toUInt32 = w := by
  have small : w.toNat % Nat.pow 256 4 = w.toNat := Nat.mod_eq_of_lt w.toNat_lt
  rw [decode_encode, small]
  exact UInt32.ofNat_toNat

/-- A header is read back, whatever comes behind it. -/
theorem decode_header (h : Header) (rest : List UInt8) :
    Header.decode (h.encode ++ rest) = .ok h := by
  have long : ¬(h.encode ++ rest).length < headerSize := by
    rw [List.length_append, length_encode_header]
    omega
  have letters : (h.encode ++ rest).take 4 = magic := by
    rw [encode_header_append]
    rfl
  -- what stands at the offset of each field
  have start := spells_self (h.encode ++ rest)
  nth_rewrite 2 [encode_header_append] at start
  have versionPart := start.back
  have tagPart := versionPart.back
  have flagPart := tagPart.back
  have nodesPart := flagPart.back.back
  have relationshipsPart := nodesPart.back
  have descriptionPart := relationshipsPart.back
  have adjacencyPart := descriptionPart.back
  have checksumPart := adjacencyPart.back
  have versionRead : Header.field (h.encode ++ rest) 4 4 = version :=
    field_of_spells versionPart.front rfl
  have tagRead : Header.field (h.encode ++ rest) 8 1 = h.mode.tag :=
    (field_of_spells tagPart.front rfl).trans (decode_tag h.mode)
  have flagRead : Header.field (h.encode ++ rest) 9 1 = _ := field_of_spells flagPart.front rfl
  have nodesRead : Header.field (h.encode ++ rest) 12 8 = _ := field_of_spells nodesPart.front rfl
  have relationshipsRead : Header.field (h.encode ++ rest) 20 8 = _ :=
    field_of_spells relationshipsPart.front rfl
  have descriptionRead : Header.field (h.encode ++ rest) 28 8 = _ :=
    field_of_spells descriptionPart.front rfl
  have adjacencyRead : Header.field (h.encode ++ rest) 36 8 = _ :=
    field_of_spells adjacencyPart.front rfl
  have checksumRead : Header.field (h.encode ++ rest) 44 4 = _ :=
    field_of_spells checksumPart.front rfl
  simp only [Header.decode, if_neg long, letters, versionRead, tagRead, Mode.ofTag?_tag, flagRead,
    decode_flag, nodesRead, relationshipsRead, descriptionRead, adjacencyRead, checksumRead,
    decode_word, decode_half, ne_eq, not_true_eq_false, if_false]

/-! ### Sections -/

/-- The sections of a file are accepted exactly if the header, the length of the file, the checksum,
the description and the layout are. -/
theorem decodeSections_eq_ok (bytes : List UInt8) (h : Header) (d : FileDescription)
    (adjacency : List UInt8) :
    decodeSections bytes = .ok (h, d, adjacency) ↔
      Header.decode bytes = .ok h ∧ h.fileSize = .ok bytes.length
        ∧ Checksum.ofBytes (bytes.drop headerSize) = h.checksum
        ∧ FileDescription.decode? ((bytes.drop headerSize).take h.descriptionSize.toNat) = some d
        ∧ checkLayout h d = .ok ()
        ∧ adjacency = (bytes.drop headerSize).drop h.descriptionSize.toNat := by
  simp only [decodeSections, bind_eq_ok, error_bind, check_eq_ok, ne_eq, not_not]
  constructor
  · rintro ⟨h', header, size, sized, rfl, checksum, read⟩
    cases described : FileDescription.decode?
        ((bytes.drop headerSize).take h'.descriptionSize.toNat) with
    | none => simp [described] at read
    | some d' =>
      simp only [described, bind_eq_ok] at read
      obtain ⟨passed, layout, read⟩ := read
      cases read
      exact ⟨header, sized, checksum, described, layout, rfl⟩
  · rintro ⟨header, sized, checksum, described, layout, rfl⟩
    refine ⟨h, header, bytes.length, sized, rfl, checksum, ?_⟩
    simp only [described, layout, bind_eq_ok]
    exact ⟨(), trivial, rfl⟩

/-- A file has the length that its header declares. -/
theorem fileSize_eq_ok (h : Header) (size : Nat) :
    h.fileSize = .ok size ↔
      size = headerSize + h.descriptionSize.toNat + h.adjacencySize.toNat
        ∧ size ≤ Header.largestSize := by
  rw [Header.fileSize]
  by_cases fits : headerSize + h.descriptionSize.toNat + h.adjacencySize.toNat ≤ Header.largestSize
  · rw [if_pos fits, Except.ok.injEq]
    omega
  · rw [if_neg fits]
    simp only [reduceCtorEq, false_iff]
    omega

/-! ### Files that were written -/

/-- The header of a graph's file. -/
def headerOf (g : CompressedGraph) : Header where
  mode := g.mode
  withProperties := g.withProperties
  nodeCount := g.nodeCount
  relationshipCount := g.relationshipCount
  descriptionSize := (describe g).encode.length.toUInt64
  adjacencySize := g.adjacency.toList.length.toUInt64
  checksum := Checksum.ofBytes ((describe g).encode ++ g.adjacency.toList)

/-- What stands behind the header of a graph's file. -/
def payload (g : CompressedGraph) : List UInt8 := (describe g).encode ++ g.adjacency.toList

theorem encode_eq (g : CompressedGraph) : encode g = (headerOf g).encode ++ payload g := by
  rw [payload, ← List.append_assoc]
  rfl

theorem length_encode (g : CompressedGraph) :
    (encode g).length
      = headerSize + (describe g).encode.length + g.adjacency.toList.length := by
  rw [encode_eq, List.length_append, length_encode_header, payload, List.length_append,
    Nat.add_assoc]

theorem drop_encode (g : CompressedGraph) : (encode g).drop headerSize = payload g := by
  rw [encode_eq]
  exact List.drop_left' (length_encode_header _)

theorem decode_header_encode (g : CompressedGraph) :
    Header.decode (encode g) = .ok (headerOf g) := by
  rw [encode_eq]
  exact decode_header _ _

theorem toNat_length {n : Nat} (small : n ≤ largestFile) : n.toUInt64.toNat = n := by
  have word : largestFile < UInt64.size := by decide
  exact UInt64.toNat_ofNat_of_lt' (by omega)

/-- The layout of a laid out graph is accepted. -/
theorem checkLayout_of_laidOut {g : CompressedGraph} (laidOut : g.LaidOut) :
    checkLayout (headerOf g) (describe g) = .ok () := by
  rw [checkLayout_eq_ok]
  refine ⟨?_, ?_, laidOut.ascending, laidOut.stop, laidOut.count.symm⟩
  · show g.offsets.toList.length = _
    rw [Array.length_toList]
    exact laidOut.offsets
  · show g.degrees.toList.length = _
    rw [Array.length_toList]
    exact laidOut.degrees

section Written

variable {g : CompressedGraph} (fits : (encode g).length ≤ largestFile)

include fits

theorem sizes_of_written :
    (headerOf g).descriptionSize.toNat = (describe g).encode.length
      ∧ (headerOf g).adjacencySize.toNat = g.adjacency.toList.length := by
  have length := length_encode g
  exact ⟨toNat_length (by omega), toNat_length (by omega)⟩

theorem fileSize_of_written : (headerOf g).fileSize = .ok (encode g).length := by
  obtain ⟨description, adjacency⟩ := sizes_of_written fits
  have length := length_encode g
  have word : largestFile ≤ Header.largestSize := by decide
  rw [fileSize_eq_ok, description, adjacency]
  omega

/-- The sections of a file that has the header of a graph, but for the mode and the property flag, and
everything behind the header, are accepted, whatever the columns. -/
theorem sections_of_header {file : List UInt8} {mode : Mode} {withProperties : Bool}
    (laidOut : g.LaidOut)
    (described : (describe g).encode.length ≤ GraphDraft.largestBuffer)
    (header : Header.decode file = .ok { headerOf g with mode, withProperties })
    (length : file.length = (encode g).length) (behind : file.drop headerSize = payload g) :
    decodeSections file
      = .ok ({ headerOf g with mode, withProperties }, describe g, g.adjacency.toList) := by
  have size := (sizes_of_written fits).1
  have front : (payload g).take (headerOf g).descriptionSize.toNat = (describe g).encode := by
    rw [size]
    exact List.take_left
  have back : (payload g).drop (headerOf g).descriptionSize.toNat = g.adjacency.toList := by
    rw [size]
    exact List.drop_left
  rw [decodeSections_eq_ok, behind, length]
  refine ⟨header, fileSize_of_written fits, rfl, ?_, checkLayout_of_laidOut laidOut, back.symm⟩
  rw [front]
  exact FileDescription.decode?_encode _ described

/-- A file that has the header of a graph, but for the mode and the property flag, and everything
behind the header, is read as that graph with the mode and the flag of the header. -/
theorem decode_of_header {file : List UInt8} {mode : Mode} {withProperties : Bool}
    (laidOut : g.LaidOut) (ordered : PropertyStore.Ordered g.properties.columns g.size)
    (described : (describe g).encode.length ≤ GraphDraft.largestBuffer)
    (header : Header.decode file = .ok { headerOf g with mode, withProperties })
    (length : file.length = (encode g).length) (behind : file.drop headerSize = payload g) :
    decode file = .ok { g with mode, withProperties, mapped := true } := by
  have columns : insertColumns (headerOf g).nodeCount.toNat (describe g).columns
      = .ok g.properties := insertColumns_eq ordered
  rw [decode, sections_of_header fits laidOut described header length behind]
  simp only [columns, Except.map]
  rfl

end Written

/-- A laid out graph with ordered columns is read back from its file. -/
theorem decode_encode {g : CompressedGraph} (laidOut : g.LaidOut)
    (ordered : PropertyStore.Ordered g.properties.columns g.size)
    (described : (describe g).encode.length ≤ GraphDraft.largestBuffer)
    (fits : (encode g).length ≤ largestFile) :
    decode (encode g) = .ok { g with mapped := true } :=
  decode_of_header fits laidOut ordered described (decode_header_encode g) rfl (drop_encode g)

/-- A graph is written unless its description or the file itself is too large. -/
theorem write_eq_ok {g : CompressedGraph} {file : List UInt8} :
    write g = .ok file ↔
      (describe g).encode.length ≤ GraphDraft.largestBuffer
        ∧ (encode g).length ≤ largestFile ∧ file = encode g := by
  rw [write]
  by_cases large : GraphDraft.largestBuffer < (describe g).encode.length
  · simp only [if_pos large, reduceCtorEq, false_iff]
    omega
  · by_cases long : largestFile < (encode g).length
    · simp only [if_neg large, if_pos long, reduceCtorEq, false_iff]
      omega
    · simp only [if_neg large, if_neg long, Except.ok.injEq]
      constructor
      · rintro rfl
        exact ⟨Nat.not_lt.mp large, Nat.not_lt.mp long, rfl⟩
      · rintro ⟨-, -, rfl⟩
        rfl

theorem write_triangle : write GraphDraft.triangleGraph = .ok (encode GraphDraft.triangleGraph) := by
  have described : (describe GraphDraft.triangleGraph).encode.length = 68 := by decide +kernel
  have length : (encode GraphDraft.triangleGraph).length = 152 := by
    rw [length_encode, described]
    rfl
  rw [write_eq_ok, described, length]
  exact ⟨by decide, by decide, rfl⟩

theorem decode_triangle :
    decode (encode GraphDraft.triangleGraph)
      = .ok { GraphDraft.triangleGraph with mapped := true } := by
  obtain ⟨described, fits, -⟩ := write_eq_ok.mp write_triangle
  exact decode_encode (GraphDraft.laidOut_of_build GraphDraft.build_triangle)
    (GraphDraft.ordered_of_build GraphDraft.build_triangle) described fits

/-- A graph that a caller can make is read back from its file, with the same columns bit for bit, and
is then written as the same bytes.  Only a description that outgrows one buffer, or a file that
outgrows the largest, is not written. -/
theorem write_reads_back {g : CompressedGraph} (made : g.Made) :
    (∃ bytes, write g = .ok bytes ∧ decode bytes = .ok { g with mapped := true }
        ∧ write { g with mapped := true } = .ok bytes)
      ∨ (write g = .error (.crash .capacityOverflow)
        ∧ GraphDraft.largestBuffer < (describe g).encode.length)
      ∨ (write g = .error .io ∧ largestFile < (encode g).length) := by
  have same : write { g with mapped := true } = write g := rfl
  rw [same, write]
  by_cases large : GraphDraft.largestBuffer < (describe g).encode.length
  · rw [if_pos large]
    exact .inr (.inl ⟨rfl, large⟩)
  · by_cases long : largestFile < (encode g).length
    · rw [if_neg large, if_pos long]
      exact .inr (.inr ⟨rfl, long⟩)
    · have read := decode_encode (CompressedGraph.laidOut_of_made made)
        (CompressedGraph.ordered_of_made made) (Nat.not_lt.mp large) (Nat.not_lt.mp long)
      rw [if_neg large, if_neg long]
      exact .inl ⟨encode g, rfl, read, rfl⟩

/-- A graph that was built, with a column added; two of its values are different NaNs. -/
def scoredTriangle : CompressedGraph :=
  { GraphDraft.triangleGraph with
    properties := ⟨[("score", .double #[.one, .nan, ⟨0x7ff8000000000001⟩])]⟩ }

theorem length_scoredTriangle :
    (describe scoredTriangle).encode.length = 117 ∧ (encode scoredTriangle).length = 201 := by
  have described : (describe scoredTriangle).encode.length = 117 := by decide +kernel
  refine ⟨described, ?_⟩
  rw [length_encode, described]
  rfl

theorem write_reads_back_triangle :
    ∃ g bytes, GraphDraft.triangleGraph.withColumn "score"
        (.double #[.one, .nan, ⟨0x7ff8000000000001⟩]) = .ok g
      ∧ write g = .ok bytes ∧ decode bytes = .ok { g with mapped := true } := by
  have scored : GraphDraft.triangleGraph.withColumn "score"
      (.double #[.one, .nan, ⟨0x7ff8000000000001⟩]) = .ok scoredTriangle := rfl
  obtain ⟨described, length⟩ := length_scoredTriangle
  rcases write_reads_back (.described (.built GraphDraft.build_triangle) scored) with
    ⟨bytes, written, read, -⟩ | ⟨-, large⟩ | ⟨-, long⟩
  · exact ⟨scoredTriangle, bytes, scored, written, read⟩
  · rw [described] at large
    exact absurd large (by decide)
  · rw [length] at long
    exact absurd long (by decide)

end GraphFile

end NeighborGraph
