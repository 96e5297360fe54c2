import NeighborGraph.Outcome
import NeighborGraph.Proofs.Descent.Result
import NeighborGraph.Proofs.Graph.Footprint

/-!
# Outcomes become graphs without loss

The rows of an outcome come node by node and best first; the lists of a graph are sorted by target and
encoded, and may go through a file.  A row is one step on a draft (`toGraph_eq`), and what the steps
record from a node are its own rows and no others (`recordedFrom_rows`).  Its neighbors differ from
each other, so the list that is written is the only one with these relationships in strictly ascending
order (`sorts_finalList`).

The lists take no more bytes than the footprint of the graph says (`totalBytes_written`), so the graph is
built and written if its file fits by that measure, and it does for every outcome that is in memory
(`fileBytes_le`).  What else is asked of an outcome holds of every outcome of a search
(`Search.exportable_of_run`).
-/

namespace NeighborGraph

/-! ### Rows are steps -/

namespace Row

/-- The step that adds a row. -/
def step (row : Row) : GraphStep :=
  .relateWith row.source.toUInt64 row.target.toUInt64 (.ofFloat row.similarity)

/-- What the step records. -/
def recorded (row : Row) : Recorded :=
  ⟨row.source.toUInt64, row.target.toUInt64, some (.ofFloat row.similarity)⟩

/-- Both ends of a row are nodes. -/
def Inside (nodeCount : UInt64) (row : Row) : Prop :=
  row.source.toUInt64 < nodeCount ∧ row.target.toUInt64 < nodeCount

end Row

namespace GraphDraft

/-- A draft but for its relationships. -/
def frame (b : GraphDraft) : GraphDraft := { b with lists := #[], withProperties := false }

theorem frame_record (b : GraphDraft) (source target : UInt64) (property : Binary64) :
    (b.record source target property).frame = b.frame := by
  rw [record_eq]
  split <;> rfl

/-- A row changes nothing but the relationships. -/
theorem frame_attempt (b : GraphDraft) (row : Row) : (b.attempt row.step).frame = b.frame := by
  have recorded := b.frame_record row.source.toUInt64 row.target.toUInt64 (.ofFloat row.similarity)
  rw [Row.step, attempt, apply, relateWith]
  cases b.check row.source.toUInt64 row.target.toUInt64 with
  | error fault => rfl
  | ok _ => exact recorded

theorem frame_run (b : GraphDraft) (rows : List Row) :
    (b.run (rows.map Row.step)).frame = b.frame := by
  induction rows generalizing b with
  | nil => rfl
  | cons row rows ih => exact (ih (b.attempt row.step)).trans (b.frame_attempt row)

theorem addRow_eq {b : GraphDraft} {row : Row} (inside : row.Inside b.nodeCount) :
    Outcome.addRow b row = .ok (b.attempt row.step) := by
  have passed : b.check row.source.toUInt64 row.target.toUInt64 = .ok () := check_of_inside inside
  simp only [Outcome.addRow, Row.step, attempt, apply, relateWith, passed]

/-- Rows between nodes are all accepted. -/
theorem foldlM_addRow {b : GraphDraft} {rows : List Row}
    (inside : ∀ row ∈ rows, row.Inside b.nodeCount) :
    rows.foldlM Outcome.addRow b = .ok (b.run (rows.map Row.step)) := by
  induction rows generalizing b with
  | nil => rfl
  | cons row rows ih =>
    have same : (b.attempt row.step).nodeCount = b.nodeCount :=
      (congrArg GraphDraft.nodeCount (b.frame_attempt row) :)
    rw [List.foldlM_cons, addRow_eq (inside row List.mem_cons_self)]
    refine ih fun other member => ?_
    rw [same]
    exact inside other (List.mem_cons_of_mem _ member)

end GraphDraft

/-- Rows between nodes are all recorded. -/
theorem recorded_rows {nodeCount : UInt64} {rows : List Row}
    (inside : ∀ row ∈ rows, row.Inside nodeCount) :
    recorded nodeCount false (rows.map Row.step) = rows.map Row.recorded := by
  induction rows with
  | nil => rfl
  | cons row rows ih =>
    have ends : row.source.toUInt64 < nodeCount ∧ row.target.toUInt64 < nodeCount :=
      inside row List.mem_cons_self
    have adds : row.step.adds nodeCount false = [row.recorded] := by
      rw [Row.step, GraphStep.adds, directions, if_pos ends,
        if_neg fun both => Bool.false_ne_true both.1]
      rfl
    rw [List.map_cons, List.map_cons, recorded, adds]
    exact congrArg (row.recorded :: ·) (ih fun other member =>
      inside other (List.mem_cons_of_mem _ member))

/-- Every row brings its similarity, so no list is left without properties. -/
theorem finalList_rows (aggregation : Aggregation) (rows : List Row) (node : UInt64) :
    finalList aggregation (rows.map Row.recorded) node
      = aggregation.answer (recordedFrom node (rows.map Row.recorded)) := by
  rw [finalList]
  cases rows with
  | nil =>
    have none : aggregation.answer [] = [] :=
      List.length_eq_zero_iff.mp (Nat.le_zero.mp (aggregation.length_answer_le []))
    rw [List.map_nil, recordedFrom, List.filter_nil, List.map_nil, none]
    rfl
  | cons row rows => exact if_pos rfl

/-! ### What a node's rows record -/

/-- A neighbor as a relationship, its similarity to the bit. -/
def Neighbor.relationship (x : Neighbor) : UInt64 × Binary64 :=
  (x.id.toUInt64, .ofFloat x.similarity)

namespace Outcome

/-- The neighbors of a node as relationships, best first. -/
def relationshipsOf (o : Outcome) (node : Nat) : List (UInt64 × Binary64) :=
  (o.neighbors node).map Neighbor.relationship

theorem toUInt64_inj {a b : Nat} (first : a < UInt64.size) (second : b < UInt64.size)
    (same : a.toUInt64 = b.toUInt64) : a = b := by
  have words := congrArg UInt64.toNat same
  rwa [UInt64.toNat_ofNat_of_lt' first, UInt64.toNat_ofNat_of_lt' second] at words

theorem recordedFrom_rowsOf (l : NeighborList) {source node : Nat} (first : source < UInt64.size)
    (second : node < UInt64.size) :
    recordedFrom node.toUInt64 ((rowsOf l source).map Row.recorded)
      = if source = node then l.entries.map Neighbor.relationship else [] := by
  rw [recordedFrom, rowsOf, List.map_map]
  by_cases own : source = node
  · rw [if_pos own, List.filter_eq_self.mpr, List.map_map]
    · rfl
    · intro r member
      obtain ⟨x, -, rfl⟩ := List.mem_map.mp member
      exact decide_eq_true (congrArg Nat.toUInt64 own)
  · rw [if_neg own, List.filter_eq_nil_iff.mpr, List.map_nil]
    intro r member taken
    obtain ⟨x, -, rfl⟩ := List.mem_map.mp member
    exact own (toUInt64_inj first second (of_decide_eq_true taken))

/-- The rows of lists whose first one belongs to the node `start`. -/
theorem recordedFrom_lists (lists : List NeighborList) {start node : Nat}
    (words : start + lists.length ≤ UInt64.size) (word : node < UInt64.size) :
    recordedFrom node.toUInt64
        (((lists.zipIdx start).flatMap fun p => rowsOf p.1 p.2).map Row.recorded)
      = if start ≤ node then
          ((lists[node - start]?.map (·.entries)).getD []).map Neighbor.relationship
        else [] := by
  induction lists generalizing start with
  | nil =>
    rw [List.getElem?_nil]
    split <;> rfl
  | cons l lists ih =>
    rw [List.length_cons] at words
    have behind := @ih (start + 1) (by omega)
    rw [List.zipIdx_cons, List.flatMap_cons, List.map_append, recordedFrom_append, behind,
      recordedFrom_rowsOf l (by omega) word]
    rcases Nat.lt_trichotomy start node with before | own | after
    · have next : node - start = node - (start + 1) + 1 := by omega
      rw [if_neg (by omega), if_pos (by omega), if_pos (by omega), next,
        List.getElem?_cons_succ, List.nil_append]
    · rw [if_pos own, if_neg (by omega), if_pos (by omega), own, Nat.sub_self,
        List.getElem?_cons_zero, List.append_nil]
      rfl
    · rw [if_neg (by omega), if_neg (by omega), if_neg (by omega), List.append_nil]

/-- What is recorded from a node are its neighbors. -/
theorem recordedFrom_rows (o : Outcome) {node : Nat} (words : o.lists.size ≤ UInt64.size)
    (word : node < UInt64.size) :
    recordedFrom node.toUInt64 (o.rows.map Row.recorded) = o.relationshipsOf node := by
  have inside : 0 + o.lists.toList.length ≤ UInt64.size := by
    rw [Array.length_toList]
    omega
  have lists := recordedFrom_lists o.lists.toList inside word
  rw [if_pos (Nat.zero_le node), Nat.sub_zero, Array.getElem?_toList] at lists
  exact lists

/-! ### Numbers of rows -/

/-- An outcome has as many rows as neighbors. -/
theorem length_rows (o : Outcome) : o.rows.length = o.size := by
  have count (lists : List NeighborList) (n start : Nat) :
      lists.foldl (fun n l => n + l.entries.length) n
        = n + ((lists.zipIdx start).flatMap fun p => rowsOf p.1 p.2).length := by
    induction lists generalizing n start with
    | nil => rfl
    | cons l lists ih =>
      rw [List.foldl_cons, ih _ (start + 1), List.zipIdx_cons, List.flatMap_cons, List.length_append,
        rowsOf, List.length_map, Nat.add_assoc]
  have all := count o.lists.toList 0 0
  rw [Nat.zero_add, Array.foldl_toList] at all
  exact all.symm

/-! ### Outcomes that fit a graph -/

/-- Nodes are numbered by words, every list belongs to a node and has nodes for neighbors, each of them
once and no more of them than a degree can say. -/
structure Exportable (o : Outcome) : Prop where
  word : o.nodeCount < UInt64.size
  nodes : o.lists.size ≤ o.nodeCount
  known : ∀ l ∈ o.lists, ∀ x ∈ l.entries, x.id < o.nodeCount
  distinct : ∀ l ∈ o.lists, l.ids.Nodup
  short : ∀ l ∈ o.lists, l.entries.length ≤ GraphDraft.largestDegree

/-- Most bytes that the file of an outcome's graph takes: those estimated for the graph, the header
and the lengths of the description. -/
def fileBytes (o : Outcome) (mode : Mode) : Nat :=
  (Footprint.ofGraph o.nodeCount o.size mode true).max + GraphFile.headerSize + 24

/-- A graph has exactly the neighbors of an outcome: those of every node in the order of their numbers,
each with its similarity to the bit. -/
structure Exported (o : Outcome) (g : CompressedGraph) : Prop where
  nodes : g.size = o.nodeCount
  count : g.relationshipCount.toNat = o.size
  answers : ∀ node < o.nodeCount, ∃ entries, g.Answers node.toUInt64 entries
    ∧ entries.Perm (o.relationshipsOf node) ∧ entries.Pairwise fun p q => p.1 < q.1

variable {o : Outcome} {mode : Mode}

/-- The neighbors of a node are those of a list, if there are any. -/
theorem neighbors_cases (o : Outcome) (node : Nat) :
    o.neighbors node = [] ∨ ∃ l ∈ o.lists, o.neighbors node = l.entries := by
  rw [neighbors]
  cases found : o.lists[node]? with
  | none => exact .inl rfl
  | some l => exact .inr ⟨l, Array.mem_of_getElem? found, rfl⟩

theorem length_relationshipsOf_le (exportable : o.Exportable) (node : Nat) :
    (o.relationshipsOf node).length ≤ GraphDraft.largestDegree := by
  rw [relationshipsOf, List.length_map]
  rcases o.neighbors_cases node with none | ⟨l, member, same⟩
  · rw [none]
    exact Nat.zero_le _
  · rw [same]
    exact exportable.short l member

theorem targets_relationshipsOf (exportable : o.Exportable) (node : Nat) :
    ((o.relationshipsOf node).map (·.1)).Nodup := by
  have word := exportable.word
  have ids : ((o.neighbors node).map (·.id)).Nodup ∧ ∀ x ∈ o.neighbors node, x.id < o.nodeCount := by
    rcases o.neighbors_cases node with none | ⟨l, member, same⟩
    · rw [none]
      exact ⟨.nil, fun _ none => absurd none List.not_mem_nil⟩
    · rw [same]
      exact ⟨exportable.distinct l member, exportable.known l member⟩
  rw [relationshipsOf, List.map_map, List.nodup_iff_pairwise_ne, List.pairwise_map]
  refine (List.pairwise_map.mp ids.1).imp_of_mem fun memberX memberY other same => other ?_
  exact toUInt64_inj (Nat.lt_trans (ids.2 _ memberX) word) (Nat.lt_trans (ids.2 _ memberY) word) same

theorem Exportable.toNat_nodeCount (exportable : o.Exportable) :
    o.nodeCount.toUInt64.toNat = o.nodeCount := UInt64.toNat_ofNat_of_lt' exportable.word

theorem Exportable.node_lt (exportable : o.Exportable) {node : Nat} (inside : node < o.nodeCount) :
    node.toUInt64 < o.nodeCount.toUInt64 := by
  apply GraphDraft.ofNat_node_lt
  rwa [exportable.toNat_nodeCount]

/-- Both ends of every row are nodes. -/
theorem inside_rows (exportable : o.Exportable) :
    ∀ row ∈ o.rows, row.Inside o.nodeCount.toUInt64 := by
  intro row member
  obtain ⟨⟨l, source⟩, listed, member⟩ := List.mem_flatMap.mp member
  obtain ⟨x, entry, rfl⟩ := List.mem_map.mp member
  have nodes := exportable.nodes
  have inside := List.snd_lt_of_mem_zipIdx listed
  have list : l ∈ o.lists := Array.mem_def.mpr (List.fst_mem_of_mem_zipIdx listed)
  rw [Array.length_toList] at inside
  exact ⟨exportable.node_lt (show source < o.nodeCount by omega),
    exportable.node_lt (exportable.known l list x entry)⟩

/-! ### The draft of an outcome -/

/-- The steps that make the graph of an outcome. -/
def steps (o : Outcome) (mode : Mode) : List GraphStep :=
  .encodeAs mode :: .aggregateBy .none :: o.rows.map Row.step

/-- The draft of everything an outcome found. -/
def draft (o : Outcome) (mode : Mode) : GraphDraft :=
  (GraphDraft.ofNodeCount o.nodeCount.toUInt64).run (o.steps mode)

theorem frame_draft (o : Outcome) (mode : Mode) :
    (o.draft mode).frame
      = { nodeCount := o.nodeCount.toUInt64, mode, aggregation := .none, lists := #[] } :=
  GraphDraft.frame_run _ o.rows

theorem mode_draft (o : Outcome) (mode : Mode) : (o.draft mode).mode = mode :=
  (congrArg GraphDraft.mode (frame_draft o mode) :)

theorem aggregation_draft (o : Outcome) (mode : Mode) : (o.draft mode).aggregation = .none :=
  (congrArg GraphDraft.aggregation (frame_draft o mode) :)

theorem properties_draft (o : Outcome) (mode : Mode) : (o.draft mode).properties = {} :=
  (congrArg GraphDraft.properties (frame_draft o mode) :)

theorem toGraph_eq (exportable : o.Exportable) (mode : Mode) :
    o.toGraph mode = (o.draft mode).build := by
  rw [toGraph, GraphDraft.foldlM_addRow (inside_rows exportable)]
  rfl

theorem records_draft (exportable : o.Exportable) (mode : Mode) :
    ∃ both, (o.draft mode).Records o.nodeCount.toUInt64 both (o.rows.map Row.recorded) := by
  have run := GraphDraft.records_run (GraphDraft.records_ofNodeCount o.nodeCount.toUInt64)
    (o.steps mode)
  have rows : NeighborGraph.recorded o.nodeCount.toUInt64 false (o.steps mode)
      = o.rows.map Row.recorded := recorded_rows (inside_rows exportable)
  rwa [rows] at run

/-- What is written for a node are its neighbors in strictly ascending order. -/
theorem sorts_finalList (exportable : o.Exportable) {node : Nat} (inside : node < o.nodeCount) :
    let final := finalList .none (o.rows.map Row.recorded) node.toUInt64
    final.Perm (o.relationshipsOf node) ∧ final.Pairwise fun p q => p.1 < q.1 := by
  intro final
  have word := exportable.word
  have nodes := exportable.nodes
  have sorts := Aggregation.sorts_answer (a := .none) (by decide) (o.relationshipsOf node)
  have same : final = Aggregation.none.answer (o.relationshipsOf node) := by
    rw [← o.recordedFrom_rows (by omega) (by omega)]
    exact finalList_rows _ _ _
  rw [← same] at sorts
  have once : (final.map (·.1)).Nodup :=
    (sorts.perm.map _).nodup_iff.mpr (targets_relationshipsOf exportable node)
  refine ⟨sorts.perm, ?_⟩
  exact List.pairwise_map.mp (sorts.ascending.imp₂ (fun _ _ le ne => UInt64.lt_of_le_of_ne le ne) once)

/-! ### Sizes -/

/-- The lists of an outcome as they are written. -/
def written (o : Outcome) (mode : Mode) : List Encoded :=
  (o.draft mode).finalLists o.nodeCount.toUInt64 (o.rows.map Row.recorded)

theorem length_written (exportable : o.Exportable) (mode : Mode) :
    (o.written mode).length = o.nodeCount := by
  rw [written, GraphDraft.finalLists, List.length_map, List.length_range]
  exact exportable.toNat_nodeCount

/-- The degrees that are written are the numbers of neighbors. -/
theorem degrees_written (exportable : o.Exportable) (mode : Mode) :
    (o.written mode).map Encoded.degree
      = (List.range o.nodeCount).map fun node => (o.relationshipsOf node).length := by
  rw [written, GraphDraft.finalLists, List.map_map, exportable.toNat_nodeCount, aggregation_draft]
  apply List.map_congr_left
  intro node inside
  have perm := (sorts_finalList exportable (List.mem_range.mp inside)).1
  rw [← perm.length_eq]
  exact List.length_map _

/-- Every row is one relationship. -/
theorem sum_degrees_written (exportable : o.Exportable) (mode : Mode) :
    ((o.written mode).map Encoded.degree).sum = o.size := by
  have word := exportable.word
  have nodes := exportable.nodes
  have shares := sum_recordedFrom (o.rows.map Row.recorded) (Nat.le_of_lt word)
  have all : ((o.rows.map Row.recorded).filter fun r => decide (r.source.toNat < o.nodeCount))
      = o.rows.map Row.recorded := by
    rw [List.filter_eq_self]
    intro r member
    obtain ⟨row, listed, rfl⟩ := List.mem_map.mp member
    have inside : row.source.toUInt64.toNat < o.nodeCount.toUInt64.toNat :=
      (inside_rows exportable row listed).1
    rw [exportable.toNat_nodeCount] at inside
    exact decide_eq_true inside
  rw [all, List.length_map, length_rows] at shares
  rw [degrees_written exportable, ← shares]
  congr 1
  apply List.map_congr_left
  intro node inside
  have inside := List.mem_range.mp inside
  rw [← o.recordedFrom_rows (by omega) (by omega)]

/-- The lists take the bytes of their targets, which keep within their footprint, and eight for every
similarity. -/
theorem totalBytes_written (exportable : o.Exportable) (mode : Mode) :
    ∃ bytes, Footprint.Spans mode o.nodeCount o.size bytes
      ∧ totalBytes (o.written mode) = bytes + o.size * 8 := by
  have final : ∀ e ∈ o.written mode, ∃ final,
      e = Encoded.ofFinal mode (anyProperty (o.rows.map Row.recorded)) final := by
    intro e member
    obtain ⟨node, -, rfl⟩ := List.mem_map.mp member
    rw [mode_draft]
    exact ⟨_, rfl⟩
  obtain ⟨bytes, spans, total⟩ := Footprint.spans_lists final
  rw [length_written exportable, sum_degrees_written exportable] at spans
  rw [sum_degrees_written exportable] at total
  refine ⟨bytes, spans, ?_⟩
  -- without a similarity there are no rows
  rw [total, ← length_rows]
  cases o.rows <;> rfl

theorem fileBytes_eq (o : Outcome) (mode : Mode) :
    o.fileBytes mode = (Footprint.targetPart o.nodeCount o.size mode).max + o.size * 8
      + ((o.nodeCount + 1) * 8 + o.nodeCount * 4) + GraphFile.headerSize + 24 := rfl

/-- An outcome that is in memory fits: addresses have at most 57 bits, a list takes four words and
a neighbor three. -/
theorem fileBytes_le (held : o.nodeCount * 32 + o.size * 24 ≤ 2 ^ 57) (mode : Mode) :
    o.fileBytes mode ≤ GraphFile.largestFile := by
  rw [fileBytes_eq, targetPart_eq, GraphFile.headerSize, GraphFile.largestFile]
  cases mode with
  | plain =>
    simp only
    omega
  | varLong =>
    simp only
    omega
  | packed tail =>
    cases tail <;> simp only <;> omega

/-! ### Graphs of outcomes -/

/-- A graph of an outcome is one over its lists, and their bytes fit one buffer. -/
theorem graphOver_of_toGraph (exportable : o.Exportable) {g : CompressedGraph}
    (built : o.toGraph mode = .ok g) :
    ∃ l : GraphDraft.Layout, g = (o.draft mode).graphOver l ∧ l.Lays (o.written mode)
      ∧ totalBytes (o.written mode) ≤ GraphDraft.largestBuffer := by
  obtain ⟨both, records⟩ := records_draft exportable mode
  rw [toGraph_eq exportable] at built
  exact GraphDraft.graphOver_of_build records built

/-- The graph over the lists has the neighbors of the outcome. -/
theorem exported_graphOver (exportable : o.Exportable) {l : GraphDraft.Layout}
    (lays : l.Lays (o.written mode))
    (fits : totalBytes (o.written mode) ≤ GraphDraft.largestBuffer) :
    o.Exported ((o.draft mode).graphOver l) := by
  obtain ⟨both, records⟩ := records_draft exportable mode
  refine ⟨?_, ?_, fun node inside => ?_⟩
  · show (o.draft mode).nodeCount.toNat = _
    rw [records.nodes]
    exact exportable.toNat_nodeCount
  · obtain ⟨bytes, -, total⟩ := totalBytes_written exportable mode
    rw [GraphDraft.largestBuffer] at fits
    have word : o.size < 2 ^ 64 := by omega
    show l.relationshipCount.toNat = _
    rw [lays.relationships, sum_degrees_written exportable]
    exact UInt64.toNat_ofNat_of_lt' word
  · have answers := GraphDraft.answers_graphOver records lays fits (exportable.node_lt inside)
    rw [aggregation_draft] at answers
    exact ⟨_, answers, sorts_finalList exportable inside⟩

/-- A graph that is served from its file answers as it did before. -/
theorem Exported.mapped {g : CompressedGraph} (h : o.Exported g) :
    o.Exported { g with mapped := true } := by
  refine ⟨h.nodes, h.count, fun node inside => ?_⟩
  obtain ⟨entries, answers, sorted⟩ := h.answers node inside
  exact ⟨entries, ⟨answers.degree, answers.neighbors, answers.relationships, answers.neighborAt,
    answers.contains⟩, sorted⟩

/-- The graph is built, since neither a degree nor the bytes outgrow their words. -/
theorem toGraph_of_fits (exportable : o.Exportable)
    (fits : o.fileBytes mode ≤ GraphFile.largestFile) : ∃ g, o.toGraph mode = .ok g := by
  obtain ⟨both, records⟩ := records_draft exportable mode
  rw [toGraph_eq exportable, GraphDraft.build, GraphDraft.encodeLists_eq records]
  rcases GraphDraft.layOut_cases (o.written mode) with
    ⟨large, -⟩ | ⟨e, member, large, -⟩ | ⟨l, done, -, -⟩
  · obtain ⟨bytes, spans, total⟩ := totalBytes_written exportable mode
    have most := (Footprint.contains_iff.mp spans.contained).2
    rw [fileBytes_eq, GraphFile.largestFile] at fits
    rw [GraphDraft.largestBuffer] at large
    omega
  · have degree := List.mem_map_of_mem (f := Encoded.degree) member
    rw [degrees_written exportable] at degree
    obtain ⟨node, -, same⟩ := List.mem_map.mp degree
    have short := length_relationshipsOf_le exportable node
    omega
  · rw [written] at done
    exact ⟨(o.draft mode).graphOver l, by simp only [done]⟩

/-- The graph is written, since its file is no longer than is estimated. -/
theorem write_of_fits (exportable : o.Exportable)
    (fits : o.fileBytes mode ≤ GraphFile.largestFile) {g : CompressedGraph}
    (built : o.toGraph mode = .ok g) : GraphFile.write g = .ok (GraphFile.encode g) := by
  obtain ⟨l, same, lays, -⟩ := graphOver_of_toGraph exportable built
  obtain ⟨bytes, spans, total⟩ := totalBytes_written exportable mode
  have most := (Footprint.contains_iff.mp spans.contained).2
  have columns : g.properties = {} := by
    rw [same]
    exact properties_draft o mode
  have offsets : g.offsets.size = o.nodeCount + 1 := by
    rw [same]
    show (l.offsets.push _).size = _
    rw [Array.size_push, lays.count, length_written exportable]
  have degrees : g.degrees.size = o.nodeCount := by
    rw [same]
    show l.degrees.size = _
    rw [← Array.length_toList, lays.degrees, List.length_map, length_written exportable]
  have adjacency : g.adjacency.size = totalBytes (o.written mode) := by
    rw [same]
    show l.adjacency.size = _
    rw [← Array.length_toList, lays.adjacency, List.length_flatMap, totalBytes]
  have described : (GraphFile.describe g).encode.length
      = (o.nodeCount + 1) * 8 + o.nodeCount * 4 + 24 := by
    rw [GraphFile.describe, columns, FileDescription.length_encode_bare, Array.length_toList,
      Array.length_toList, offsets, degrees]
  rw [fileBytes_eq, GraphFile.largestFile] at fits
  rw [GraphFile.write_eq_ok, GraphFile.length_encode, described, Array.length_toList, adjacency,
    GraphDraft.largestBuffer, GraphFile.largestFile]
  exact ⟨by omega, by omega, rfl⟩

/-- Making a graph of an outcome loses nothing.  There are as many relationships as rows, and the graph
has the neighbors of every node in ascending order, each with its similarity, also when it is read back
from its file.  It is built and written unless the program itself estimates that it may outgrow the
largest file. -/
theorem toGraph_keeps_all (exportable : o.Exportable) (mode : Mode) :
    o.rows.length = o.size
      ∧ (∀ g, o.toGraph mode = .ok g → g.mode = mode ∧ o.Exported g
          ∧ ∀ file, GraphFile.write g = .ok file →
              ∃ opened, GraphFile.decode file = .ok opened ∧ opened.mode = mode ∧ o.Exported opened)
      ∧ (o.fileBytes mode ≤ GraphFile.largestFile →
          ∃ g file, o.toGraph mode = .ok g ∧ GraphFile.write g = .ok file) := by
  refine ⟨o.length_rows, fun g built => ?_, fun fits => ?_⟩
  · obtain ⟨l, rfl, lays, fits⟩ := graphOver_of_toGraph exportable built
    have exported := exported_graphOver exportable lays fits
    rw [toGraph_eq exportable] at built
    have laidOut := GraphDraft.laidOut_of_build built
    have ordered := GraphDraft.ordered_of_build built
    refine ⟨mode_draft o mode, exported, fun file done => ?_⟩
    obtain ⟨described, short, rfl⟩ := GraphFile.write_eq_ok.mp done
    exact ⟨_, GraphFile.decode_encode laidOut ordered described short, mode_draft o mode,
      exported.mapped⟩
  · obtain ⟨g, built⟩ := toGraph_of_fits exportable fits
    exact ⟨g, GraphFile.encode g, built, write_of_fits exportable fits built⟩

/-- The best neighbors of two of three nodes. -/
def twoOfThree : Outcome where
  lists := #[{ capacity := 2, entries := [⟨2, 0.75, true⟩, ⟨1, 0.5, false⟩] },
    { capacity := 2, entries := [⟨0, 0.5, true⟩] }]
  nodeCount := 3
  iterations := 1
  converged := true
  pairs := 3

theorem exportable_twoOfThree : twoOfThree.Exportable :=
  ⟨by decide, by decide, by decide, by decide, by decide⟩

theorem toGraph_keeps_all_of_three :
    twoOfThree.rows.length = 3
      ∧ ∃ g file opened, twoOfThree.toGraph (.packed .packed) = .ok g ∧ twoOfThree.Exported g
        ∧ GraphFile.write g = .ok file ∧ GraphFile.decode file = .ok opened
        ∧ opened.relationshipCount.toNat = 3
        ∧ opened.relationships 0 = .ok [(1, .ofFloat 0.5), (2, .ofFloat 0.75)] := by
  have fits : twoOfThree.fileBytes (.packed .packed) ≤ GraphFile.largestFile := by decide
  obtain ⟨rows, keeps, succeeds⟩ := toGraph_keeps_all exportable_twoOfThree (.packed .packed)
  obtain ⟨g, file, built, written⟩ := succeeds fits
  obtain ⟨-, exported, read⟩ := keeps g built
  obtain ⟨opened, decoded, -, same⟩ := read file written
  obtain ⟨entries, answers, perm, ascending⟩ := same.answers 0 (by decide)
  refine ⟨rows, g, file, opened, built, exported, written, decoded, same.count, ?_⟩
  have sorted : entries = [(1, .ofFloat 0.5), (2, .ofFloat 0.75)] := by
    refine (perm.trans (.swap _ _ _)).eq_of_pairwise ?_ ascending (by simp)
    exact fun _ _ _ _ less more => absurd more (UInt64.lt_asymm less)
  rw [← sorted]
  exact answers.relationships

end Outcome

/-! ### Outcomes of searches -/

namespace Search

/-- Whatever a run finds can become a graph. -/
theorem exportable_of_run {s : Search} {o : Outcome} {d : Descent} {entropy : UInt64}
    {signals : Signals} {signal : Nat} (run : s.run entropy signals signal = (.ok o, d)) :
    o.Exportable := by
  by_cases nothing : s.nodeCount < 2 ∨ s.config.topK = 0
  · have none := run_of_nothing nothing entropy signals signal
    rw [run] at none
    cases none
    exact ⟨by decide, by decide, by decide, by decide, by decide⟩
  · have nodes : o.nodeCount = s.nodeCount := nodeCount_of_run nothing run
    obtain ⟨several, places⟩ := not_or.mp nothing
    have lasting := lasting_sound s.comparison s.nodeCount (s.config.listCapacity s.nodeCount)
    have first := sound_start s.comparison signals s.nodeCount (s.config.listCapacity s.nodeCount)
    obtain ⟨valid, t, sound, ends⟩ := of_run lasting
      (fun t _ sound => ⟨sound.size, sound.recorded, sound.lists⟩) first (Nat.not_lt.mp several)
      places run
    have finds : ∀ l ∈ o.lists, ∃ v, s.Finds v l.entries := by
      intro l member
      rw [ends.lists] at member
      obtain ⟨l, listed, rfl⟩ := Array.mem_map.mp member
      obtain ⟨v, inside, rfl⟩ := Array.mem_iff_getElem.mp listed
      exact ⟨v, finds_cut (sound.lists v _ (Array.getElem?_eq_getElem inside))⟩
    refine ⟨?_, ?_, fun l member x entry => ?_, fun l member => ?_, fun l member => ?_⟩
    · rw [nodes]
      exact UInt64.toNat_lt _
    · rw [nodes, ends.lists, Array.size_map, sound.size]
    · obtain ⟨v, finds⟩ := finds l member
      rw [nodes]
      exact (finds.others x entry).1
    · obtain ⟨v, finds⟩ := finds l member
      exact finds.distinct
    · obtain ⟨v, finds⟩ := finds l member
      have few : s.config.topK.toNat ≤ Config.largestTopK.toNat := Config.topK_le valid
      have most : Config.largestTopK.toNat ≤ GraphDraft.largestDegree := by decide
      have bounded := finds.bounded
      omega

end Search

end NeighborGraph
