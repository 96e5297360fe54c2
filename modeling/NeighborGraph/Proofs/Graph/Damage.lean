import NeighborGraph.Proofs.Checksum
import NeighborGraph.Proofs.Graph.Opened

/-!
# Damaged graph files

What becomes of a written file when some of its bytes are changed.

Behind the header everything is under the checksum.  Damage of up to four bytes in a row changes the
checksum, so a reader reports it (`payload_damage_is_detected`).

The header is not under the checksum; each field is guarded by what it has to fit.  The lengths have
to add up to the length of the file, and then the numbers of nodes and relationships have to fit the
offsets and degrees that the description holds (`header_of_accepted`).  Nothing guards the mode and
the property flag: they say how the lists are to be read, and any lists may be read in any mode.
What is read of a header is `Header.Stated`, one equation for each field, so that a changed byte is
followed through the fields that it does not touch.
`header_damage` says for every byte of the header what a reader makes of the file when that byte is
another one.
-/

namespace NeighborGraph

namespace GraphFile

open LittleEndian

/-! ### What damage leaves -/

/-- Two byte lists of the same length that agree outside `size` bytes from `start` on. -/
structure AgreeOutside (bytes bytes' : List UInt8) (start size : Nat) : Prop where
  length : bytes'.length = bytes.length
  agree : ∀ i, i < start ∨ start + size ≤ i → bytes'[i]? = bytes[i]?

namespace AgreeOutside

variable {bytes bytes' : List UInt8} {start size : Nat}

theorem take (h : AgreeOutside bytes bytes' start size) {count : Nat} (before : count ≤ start) :
    bytes'.take count = bytes.take count := by
  apply List.ext_getElem?
  intro i
  rw [List.getElem?_take, List.getElem?_take]
  split
  · exact h.agree i (by omega)
  · rfl

theorem drop (h : AgreeOutside bytes bytes' start size) :
    bytes'.drop (start + size) = bytes.drop (start + size) := by
  apply List.ext_getElem?
  intro i
  rw [List.getElem?_drop, List.getElem?_drop]
  exact h.agree _ (by omega)

theorem behind (h : AgreeOutside bytes bytes' start size) {count : Nat} (before : count ≤ start) :
    AgreeOutside (bytes.drop count) (bytes'.drop count) (start - count) size := by
  refine ⟨by simp only [List.length_drop, h.length], ?_⟩
  intro i outside
  rw [List.getElem?_drop, List.getElem?_drop]
  exact h.agree _ (by omega)

/-- What differs is a window of equal length in both. -/
theorem windows (h : AgreeOutside bytes bytes' start size) :
    ∃ before window window' after, bytes = before ++ (window ++ after)
      ∧ bytes' = before ++ (window' ++ after) ∧ window.length = window'.length
      ∧ window.length ≤ size := by
  refine ⟨bytes.take start, (bytes.drop start).take size, (bytes'.drop start).take size,
    bytes.drop (start + size), ?_, ?_, ?_, ?_⟩
  · rw [← List.drop_drop, List.take_append_drop, List.take_append_drop]
  · rw [← h.take (Nat.le_refl start), ← h.drop, ← List.drop_drop, List.take_append_drop,
      List.take_append_drop]
  · simp only [List.length_take, List.length_drop, h.length]
  · exact List.length_take_le _ _

/-- A field that the damage does not touch. -/
theorem field (h : AgreeOutside bytes bytes' start size) {offset count : Nat}
    (outside : offset + count ≤ start ∨ start + size ≤ offset) :
    Header.field bytes' offset count = Header.field bytes offset count := by
  have part : (bytes'.drop offset).take count = (bytes.drop offset).take count := by
    apply List.ext_getElem?
    intro i
    rw [List.getElem?_take, List.getElem?_take]
    split
    · rw [List.getElem?_drop, List.getElem?_drop]
      exact h.agree _ (by omega)
    · rfl
  rw [Header.field, part, Header.field]

end AgreeOutside

theorem agreeOutside_set (bytes : List UInt8) (i : Nat) (byte : UInt8) :
    AgreeOutside bytes (bytes.set i byte) i 1 := by
  refine ⟨List.length_set, ?_⟩
  intro j outside
  exact List.getElem?_set_ne (by omega)

theorem agreeOutside_splice (bytes window : List UInt8) (start : Nat)
    (inside : start + window.length ≤ bytes.length) :
    AgreeOutside bytes (bytes.take start ++ (window ++ bytes.drop (start + window.length))) start
      window.length := by
  have front : (bytes.take start).length = start := List.length_take_of_le (by omega)
  refine ⟨?_, ?_⟩
  · simp only [List.length_append, front, List.length_drop]
    omega
  · intro i outside
    by_cases before : i < start
    · rw [List.getElem?_append_left (by omega), List.getElem?_take_of_lt before]
    · rw [List.getElem?_append_right (by omega), List.getElem?_append_right (by omega),
        List.getElem?_drop, front]
      congr 1
      omega

/-! ### Damage behind the header -/

/-- A file of the right length is refused when its checksum is not the one that the header states. -/
theorem decodeSections_of_mismatch {bytes : List UInt8} {h : Header}
    (header : Header.decode bytes = .ok h) (size : h.fileSize = .ok bytes.length)
    (mismatch : Checksum.ofBytes (bytes.drop headerSize) ≠ h.checksum) :
    decodeSections bytes
      = .error (.checksumMismatch h.checksum (Checksum.ofBytes (bytes.drop headerSize))) := by
  simp only [decodeSections, header, size, bind, Except.bind, ne_eq, not_true_eq_false, if_false,
    mismatch, not_false_eq_true, if_true]

/-- Damage of up to four bytes in a row behind the header is reported as a checksum that does not
match, wherever it is and whatever the bytes become. -/
theorem payload_damage_is_detected {g : CompressedGraph} {file file' : List UInt8}
    (written : write g = .ok file) {start : Nat} (behind : headerSize ≤ start)
    (agree : AgreeOutside file file' start 4) (differ : file' ≠ file) :
    let expected := Checksum.ofBytes (file.drop headerSize)
    let actual := Checksum.ofBytes (file'.drop headerSize)
    actual ≠ expected ∧ decode file' = .error (.corruption (.checksumMismatch expected actual)) := by
  intro expected actual
  obtain ⟨-, fits, rfl⟩ := write_eq_ok.mp written
  have front : file'.take headerSize = (headerOf g).encode := by
    rw [agree.take behind, encode_eq]
    exact List.take_left' (length_encode_header _)
  have parts : (headerOf g).encode ++ file'.drop headerSize = file' := by
    rw [← front, List.take_append_drop]
  have header : Header.decode file' = .ok (headerOf g) := by
    rw [← parts]
    exact decode_header _ _
  have size : (headerOf g).fileSize = .ok file'.length := by
    rw [agree.length]
    exact fileSize_of_written fits
  have stated : (headerOf g).checksum = expected := by
    show Checksum.ofBytes (payload g) = _
    rw [← drop_encode]
  obtain ⟨before, window, window', after, whole, whole', length, short⟩ :=
    (agree.behind behind).windows
  have other : window' ≠ window := by
    rintro rfl
    rw [← whole] at whole'
    apply differ
    rw [← parts, whole', drop_encode, encode_eq]
  have mismatch : actual ≠ expected := by
    show Checksum.ofBytes (file'.drop headerSize) ≠ Checksum.ofBytes ((encode g).drop headerSize)
    rw [whole, whole']
    exact Checksum.ofBytes_ne_of_window before after length.symm (length ▸ short) other
  refine ⟨mismatch, ?_⟩
  rw [decode, decodeSections_of_mismatch header size (stated ▸ mismatch), stated]

/-- The last two bytes of the description of this file and the first two of its lists. -/
theorem payload_damage_is_detected_triangle :
    ∃ file expected actual, write GraphDraft.triangleGraph = .ok file
      ∧ decode (file.take 114 ++ ([1, 2, 3, 4] ++ file.drop 118))
          = .error (.corruption (.checksumMismatch expected actual)) := by
  have agree := agreeOutside_splice (encode GraphDraft.triangleGraph) [1, 2, 3, 4] 114
    (by decide +kernel)
  have differ : (encode GraphDraft.triangleGraph).take 114
      ++ ([1, 2, 3, 4] ++ (encode GraphDraft.triangleGraph).drop 118)
        ≠ encode GraphDraft.triangleGraph := by
    intro same
    have first := congrArg (fun bytes => bytes[114]?) same
    revert first
    decide +kernel
  exact ⟨_, _, _, write_triangle,
    (payload_damage_is_detected write_triangle (by decide) agree differ).2⟩

/-! ### Damage to the header -/

theorem field_lt (bytes : List UInt8) (offset size : Nat) :
    Header.field bytes offset size < 256 ^ size := by
  have length := List.length_take_le size (bytes.drop offset)
  have power : 256 ^ ((bytes.drop offset).take size).length ≤ 256 ^ size :=
    Nat.pow_le_pow_right (by omega) length
  have below : Header.field bytes offset size < 256 ^ ((bytes.drop offset).take size).length :=
    decode_lt _
  omega

/-- Files with the same number in a field have the same bytes there. -/
theorem getElem?_of_field {bytes bytes' : List UInt8} (length : bytes'.length = bytes.length)
    {offset size i : Nat} (same : Header.field bytes' offset size = Header.field bytes offset size)
    (inside : offset ≤ i ∧ i < offset + size) : bytes'[i]? = bytes[i]? := by
  have part : (bytes'.drop offset).take size = (bytes.drop offset).take size :=
    eq_of_decode_eq (by simp only [List.length_take, List.length_drop, length]) same
  have place : i - offset < size := by omega
  have entry := congrArg (fun list => list[i - offset]?) part
  simp only [List.getElem?_take, if_pos place, List.getElem?_drop] at entry
  rw [Nat.add_sub_cancel' inside.1] at entry
  exact entry

theorem field_one {bytes : List UInt8} {i : Nat} {byte : UInt8} (entry : bytes[i]? = some byte) :
    Header.field bytes i 1 = byte.toNat := by
  obtain ⟨inside, rfl⟩ := List.getElem?_eq_some_iff.mp entry
  rw [Header.field, List.drop_eq_getElem_cons inside, List.take_succ_cons, List.take_zero]
  rfl

/-- The header is read from a file as `h`, field by field. -/
structure Header.Stated (bytes : List UInt8) (h : Header) : Prop where
  length : headerSize ≤ bytes.length
  letters : bytes.take 4 = magic
  version : field bytes 4 4 = version
  mode : Mode.ofTag? (field bytes 8 1) = some h.mode
  withProperties : (field bytes 9 1 != 0) = h.withProperties
  nodeCount : field bytes 12 8 = h.nodeCount.toNat
  relationshipCount : field bytes 20 8 = h.relationshipCount.toNat
  descriptionSize : field bytes 28 8 = h.descriptionSize.toNat
  adjacencySize : field bytes 36 8 = h.adjacencySize.toNat
  checksum : field bytes 44 4 = h.checksum.toNat

theorem toNat_field_word (bytes : List UInt8) (offset : Nat) :
    (Header.field bytes offset 8).toUInt64.toNat = Header.field bytes offset 8 :=
  UInt64.toNat_ofNat_of_lt' (field_lt bytes offset 8)

theorem toNat_field_half (bytes : List UInt8) (offset : Nat) :
    (Header.field bytes offset 4).toUInt32.toNat = Header.field bytes offset 4 :=
  UInt32.toNat_ofNat_of_lt' (field_lt bytes offset 4)

theorem stated_iff {bytes : List UInt8} {h : Header} :
    Header.decode bytes = .ok h ↔ h.Stated bytes := by
  constructor
  · intro read
    rw [Header.decode] at read
    simp only [check_eq_ok, ne_eq, not_not, Nat.not_lt] at read
    obtain ⟨length, letters, version, read⟩ := read
    cases tag : Mode.ofTag? (Header.field bytes 8 1) with
    | none => simp only [tag, reduceCtorEq] at read
    | some mode =>
      simp only [tag, Except.ok.injEq] at read
      subst read
      exact {
        length, letters, version, mode := tag, withProperties := rfl
        nodeCount := (toNat_field_word bytes 12).symm
        relationshipCount := (toNat_field_word bytes 20).symm
        descriptionSize := (toNat_field_word bytes 28).symm
        adjacencySize := (toNat_field_word bytes 36).symm
        checksum := (toNat_field_half bytes 44).symm }
  · intro stated
    have long : ¬bytes.length < headerSize := Nat.not_lt.mpr stated.length
    have word (w : UInt64) : w.toNat.toUInt64 = w := UInt64.ofNat_toNat
    have half (w : UInt32) : w.toNat.toUInt32 = w := UInt32.ofNat_toNat
    simp only [Header.decode, if_neg long, stated.letters, stated.version, stated.mode,
      stated.withProperties, stated.nodeCount, stated.relationshipCount, stated.descriptionSize,
      stated.adjacencySize, stated.checksum, word, half, ne_eq, not_true_eq_false, if_false]

theorem header_of_unknown_mode {bytes : List UInt8} (length : headerSize ≤ bytes.length)
    (letters : bytes.take 4 = magic) (version : Header.field bytes 4 4 = version)
    (unknown : Mode.ofTag? (Header.field bytes 8 1) = none) :
    Header.decode bytes = .error (.unknownModeInHeader (Header.field bytes 8 1)) := by
  have long : ¬bytes.length < headerSize := Nat.not_lt.mpr length
  simp only [Header.decode, if_neg long, letters, version, unknown, ne_eq, not_true_eq_false,
    if_false]

namespace Header.Stated

variable {bytes bytes' : List UInt8} {h h' : Header}

/-- One changed byte is not in both lengths. -/
theorem size_kept (stated : h.Stated bytes) {i : Nat} {byte : UInt8}
    (stated' : h'.Stated (bytes.set i byte)) :
    h'.descriptionSize = h.descriptionSize ∨ h'.adjacencySize = h.adjacencySize := by
  have agree := agreeOutside_set bytes i byte
  rw [← UInt64.toNat_inj, ← UInt64.toNat_inj, ← stated.descriptionSize, ← stated.adjacencySize,
    ← stated'.descriptionSize, ← stated'.adjacencySize]
  by_cases early : i < 36
  · exact .inr (agree.field (by omega))
  · exact .inl (agree.field (by omega))

/-- Two files whose headers differ in nothing but the mode and the flag have the same header but for
the four bytes of these. -/
theorem guarded_agree (stated : h.Stated bytes) (length : bytes'.length = bytes.length)
    {mode : Mode} {withProperties : Bool}
    (stated' : ({ h with mode, withProperties } : Header).Stated bytes') {i : Nat}
    (guarded : i < 8 ∨ 12 ≤ i) (inside : i < headerSize) : bytes'[i]? = bytes[i]? := by
  have letters : field bytes' 0 4 = field bytes 0 4 :=
    congrArg LittleEndian.decode (stated'.letters.trans stated.letters.symm)
  have cover : i < 4 ∨ (4 ≤ i ∧ i < 8) ∨ (12 ≤ i ∧ i < 20) ∨ (20 ≤ i ∧ i < 28)
      ∨ (28 ≤ i ∧ i < 36) ∨ (36 ≤ i ∧ i < 44) ∨ (44 ≤ i ∧ i < 48) := by
    have size : headerSize = 48 := rfl
    omega
  have at_field {offset size : Nat} (same : field bytes' offset size = field bytes offset size)
      (place : offset ≤ i ∧ i < offset + size) : bytes'[i]? = bytes[i]? :=
    getElem?_of_field length same place
  rcases cover with place | place | place | place | place | place | place
  · exact at_field letters (by omega)
  · exact at_field (stated'.version.trans stated.version.symm) place
  · exact at_field (stated'.nodeCount.trans stated.nodeCount.symm) place
  · exact at_field (stated'.relationshipCount.trans stated.relationshipCount.symm) place
  · exact at_field (stated'.descriptionSize.trans stated.descriptionSize.symm) place
  · exact at_field (stated'.adjacencySize.trans stated.adjacencySize.symm) place
  · exact at_field (stated'.checksum.trans stated.checksum.symm) place

/-- The mode and the property flag are what the file says, whatever it says. -/
theorem set (stated : h.Stated bytes) {i : Nat} {byte : UInt8} {mode : Mode}
    {withProperties : Bool} (place : 8 ≤ i ∧ i < 12)
    (tag : Mode.ofTag? (field (bytes.set i byte) 8 1) = some mode)
    (flag : (field (bytes.set i byte) 9 1 != 0) = withProperties) :
    ({ h with mode, withProperties } : Header).Stated (bytes.set i byte) where
  length := by
    rw [List.length_set]
    exact stated.length
  letters := by
    rw [(agreeOutside_set bytes i byte).take (by omega)]
    exact stated.letters
  version := ((agreeOutside_set bytes i byte).field (by omega)).trans stated.version
  mode := tag
  withProperties := flag
  nodeCount := ((agreeOutside_set bytes i byte).field (by omega)).trans stated.nodeCount
  relationshipCount :=
    ((agreeOutside_set bytes i byte).field (by omega)).trans stated.relationshipCount
  descriptionSize := ((agreeOutside_set bytes i byte).field (by omega)).trans stated.descriptionSize
  adjacencySize := ((agreeOutside_set bytes i byte).field (by omega)).trans stated.adjacencySize
  checksum := ((agreeOutside_set bytes i byte).field (by omega)).trans stated.checksum

end Header.Stated

section Accepted

variable {g : CompressedGraph} (laidOut : g.LaidOut)
  (described : (describe g).encode.length ≤ GraphDraft.largestBuffer)
  (fits : (encode g).length ≤ largestFile)

include laidOut described fits

/-- What stands behind the header decides every field but the mode and the property flag, once one
of the two lengths is right. -/
theorem header_of_accepted {bytes : List UInt8} {h : Header} {d : FileDescription}
    {adjacency : List UInt8} (length : bytes.length = (encode g).length)
    (behind : bytes.drop headerSize = payload g)
    (sizes : h.descriptionSize = (headerOf g).descriptionSize
      ∨ h.adjacencySize = (headerOf g).adjacencySize)
    (accepted : decodeSections bytes = .ok (h, d, adjacency)) :
    h = { headerOf g with mode := h.mode, withProperties := h.withProperties } := by
  obtain ⟨-, sized, checksum, description, layout, -⟩ :=
    (decodeSections_eq_ok bytes h d adjacency).mp accepted
  have total := ((fileSize_eq_ok _ _).mp sized).1
  have total' := ((fileSize_eq_ok _ _).mp (fileSize_of_written fits)).1
  rw [length] at total
  have descriptionSize : h.descriptionSize = (headerOf g).descriptionSize := by
    rcases sizes with same | same
    · exact same
    · rw [same] at total
      exact UInt64.toNat_inj.mp (by omega)
  have adjacencySize : h.adjacencySize = (headerOf g).adjacencySize := by
    rw [descriptionSize] at total
    exact UInt64.toNat_inj.mp (by omega)
  have read : d = describe g := by
    rw [behind, descriptionSize, (sizes_of_written fits).1, payload, List.take_left,
      FileDescription.decode?_encode _ described] at description
    exact (Option.some.inj description).symm
  obtain ⟨offsets, -, -, -, count⟩ := (checkLayout_eq_ok h d).mp layout
  obtain ⟨offsets', -, -, -, count'⟩ :=
    (checkLayout_eq_ok (headerOf g) (describe g)).mp (checkLayout_of_laidOut laidOut)
  rw [read] at offsets count
  have nodeCount : h.nodeCount = (headerOf g).nodeCount := UInt64.toNat_inj.mp (by omega)
  have relationshipCount : h.relationshipCount = (headerOf g).relationshipCount :=
    count.symm.trans count'
  have stated : h.checksum = (headerOf g).checksum := by
    rw [← checksum, behind]
    rfl
  cases h
  simp only [Header.mk.injEq, true_and]
  exact ⟨nodeCount, relationshipCount, descriptionSize, adjacencySize, stated⟩

/-- A changed byte of the header that is not the mode, the property flag or unused is reported. -/
theorem guarded_damage {i : Nat} {byte : UInt8} (guarded : i < 8 ∨ 12 ≤ i) (inside : i < headerSize)
    (differ : (encode g)[i]? ≠ some byte) :
    ∃ fault, decode ((encode g).set i byte) = .error (.corruption fault) := by
  have agree := agreeOutside_set (encode g) i byte
  have behind : ((encode g).set i byte).drop headerSize = payload g := by
    rw [List.drop_set_of_lt inside, drop_encode]
  cases accepted : decodeSections ((encode g).set i byte) with
  | error fault => exact ⟨fault, by rw [decode, accepted]⟩
  | ok sections =>
    exfalso
    obtain ⟨h, d, adjacency⟩ := sections
    have stated := stated_iff.mp ((decodeSections_eq_ok _ h d adjacency).mp accepted).1
    have original := stated_iff.mp (decode_header_encode g)
    rw [header_of_accepted laidOut described fits agree.length behind (original.size_kept stated)
      accepted] at stated
    have entry := original.guarded_agree agree.length stated guarded inside
    rw [List.getElem?_set_self (Nat.lt_of_lt_of_le inside original.length)] at entry
    exact differ entry.symm

end Accepted

section Unguarded

variable {g : CompressedGraph} (laidOut : g.LaidOut)
  (ordered : PropertyStore.Ordered g.properties.columns g.size)
  (described : (describe g).encode.length ≤ GraphDraft.largestBuffer)
  (fits : (encode g).length ≤ largestFile)

include laidOut ordered described fits

/-- A file whose changed byte is the mode, the property flag or unused is read, with the mode and the
flag that it has then. -/
theorem decode_set {i : Nat} {byte : UInt8} {mode : Mode} {withProperties : Bool}
    (place : 8 ≤ i ∧ i < 12)
    (tag : Mode.ofTag? (Header.field ((encode g).set i byte) 8 1) = some mode)
    (flag : (Header.field ((encode g).set i byte) 9 1 != 0) = withProperties) :
    decode ((encode g).set i byte) = .ok { g with mode, withProperties, mapped := true } := by
  have stated := (stated_iff.mp (decode_header_encode g)).set place tag flag
  refine decode_of_header fits laidOut ordered described (stated_iff.mpr stated)
    List.length_set ?_
  rw [List.drop_set_of_lt (Nat.lt_trans place.2 (by decide)), drop_encode]

end Unguarded

/-- What a reader makes of a written file when byte `i` of its header is changed to `byte`.

A change of the letters, the version, a count, a length or the checksum is reported.  A change of
the mode is reported unless the byte is the tag of a mode; then the lists are read in that mode.  A
change of the property flag decides whether properties are read.  The other two bytes mean nothing.
In these cases everything but the mode and the flag is as it was written. -/
theorem header_damage {g : CompressedGraph} {file : List UInt8} (held : g.Held)
    (written : write g = .ok file) {i : Nat} {byte : UInt8} (inHeader : i < headerSize)
    (differ : file[i]? ≠ some byte) :
    let opened := { g with mapped := true }
    let damaged := decode (file.set i byte)
    decode file = .ok opened
      ∧ (i < 8 ∨ 12 ≤ i → ∃ fault, damaged = .error (.corruption fault))
      ∧ (i = 8 → Mode.ofTag? byte.toNat = none →
          damaged = .error (.corruption (.unknownModeInHeader byte.toNat)))
      ∧ (i = 8 → ∀ mode, Mode.ofTag? byte.toNat = some mode → damaged = .ok { opened with mode })
      ∧ (i = 9 → damaged = .ok { opened with withProperties := byte != 0 })
      ∧ (i = 10 ∨ i = 11 → damaged = .ok opened) := by
  intro opened damaged
  obtain ⟨described, fits, rfl⟩ := write_eq_ok.mp written
  have laidOut := CompressedGraph.laidOut_of_held held
  have ordered := CompressedGraph.ordered_of_held held
  have original := stated_iff.mp (decode_header_encode g)
  have agree := agreeOutside_set (encode g) i byte
  have changed : ((encode g).set i byte)[i]? = some byte :=
    List.getElem?_set_self (Nat.lt_of_lt_of_le inHeader original.length)
  -- the tag and the flag are as they were unless the byte is one of them
  have tag : i ≠ 8 → Mode.ofTag? (Header.field ((encode g).set i byte) 8 1) = some g.mode := by
    intro other
    rw [agree.field (by omega)]
    exact original.mode
  have flag : i ≠ 9 →
      (Header.field ((encode g).set i byte) 9 1 != 0) = g.withProperties := by
    intro other
    rw [agree.field (by omega)]
    exact original.withProperties
  refine ⟨decode_encode laidOut ordered described fits, ?_, ?_, ?_, ?_, ?_⟩
  · intro guarded
    exact guarded_damage laidOut described fits guarded inHeader differ
  · rintro rfl unknown
    have read := field_one changed
    show decode ((encode g).set 8 byte) = _
    rw [decode, decodeSections, header_of_unknown_mode (by rw [agree.length]; exact original.length)
      ((agree.take (by omega)).trans original.letters)
      ((agree.field (by omega)).trans original.version) (read ▸ unknown), read]
    rfl
  · rintro rfl mode known
    have read := field_one changed
    exact decode_set laidOut ordered described fits (by omega) (read ▸ known) (flag (by omega))
  · rintro rfl
    have read := field_one changed
    have nonzero : (byte.toNat != 0) = (byte != 0) := by
      rw [Bool.eq_iff_iff, bne_iff_ne, bne_iff_ne, ne_eq, ne_eq, ← UInt8.toNat_inj]
      rfl
    exact decode_set laidOut ordered described fits (by omega) (tag (by omega)) (read ▸ nonzero)
  · intro unused
    exact decode_set laidOut ordered described fits (by omega) (tag (by omega)) (flag (by omega))

theorem header_damage_triangle :
    ∃ file opened, write GraphDraft.triangleGraph = .ok file
      ∧ decode (file.set 8 4) = .ok { opened with mode := .packed .varLong }
      ∧ decode (file.set 8 5) = .error (.corruption (.unknownModeInHeader 5))
      ∧ decode file = .ok opened := by
  have other (byte : UInt8) (different : byte ≠ 1) :
      (encode GraphDraft.triangleGraph)[8]? ≠ some byte := by
    have tag : (encode GraphDraft.triangleGraph)[8]? = some 1 := by decide +kernel
    rw [tag]
    intro same
    exact different (Option.some.inj same).symm
  have held := CompressedGraph.Held.made (.built GraphDraft.build_triangle)
  have known := header_damage held write_triangle (i := 8) (by decide) (other 4 (by decide))
  have unknown := header_damage held write_triangle (i := 8) (by decide) (other 5 (by decide))
  exact ⟨_, _, write_triangle, known.2.2.2.1 rfl _ rfl, unknown.2.2.1 rfl rfl, known.1⟩

/-- Not every damage to the header is reported or harmless: with another mode, a file is read, and
the lists of its graph are others. -/
theorem mode_damage_is_silent :
    ∃ g file opened damaged,
      ((GraphDraft.ofNodeCount 3).run GraphDraft.triangle).build = .ok g ∧ write g = .ok file
      ∧ file[8]? = some 1 ∧ decode file = .ok opened ∧ decode (file.set 8 4) = .ok damaged
      ∧ opened.neighbors 0 = .ok [1, 2] ∧ damaged.neighbors 0 = .ok [2, 4] := by
  have laidOut := GraphDraft.laidOut_of_build GraphDraft.build_triangle
  have ordered := GraphDraft.ordered_of_build GraphDraft.build_triangle
  obtain ⟨described, fits, -⟩ := write_eq_ok.mp write_triangle
  have damaged : decode ((encode GraphDraft.triangleGraph).set 8 4)
      = .ok { GraphDraft.triangleGraph with mode := .packed .varLong, mapped := true } :=
    decode_set laidOut ordered described fits (by omega) (by decide +kernel) (by decide +kernel)
  refine ⟨_, _, _, _, GraphDraft.build_triangle, write_triangle, by decide +kernel,
    decode_triangle, damaged, ?_, ?_⟩
  · cbv
  · cbv

end GraphFile

end NeighborGraph
