import NeighborGraph.Descent.Run
import NeighborGraph.Proofs.Config
import NeighborGraph.Proofs.Descent.Phases
import NeighborGraph.Proofs.Schedule.Ranges

/-!
# From steps to runs

A run that succeeds is a run of phases, and phases keep what steps keep, so a lasting property that
holds of empty lists holds of the lists before the last phase (`Search.of_run`).  The last phase
drops neighbors from every list, once the settings ask for it (`Search.cut`).

The iterations end in one of two ways: after an iteration with few updates, or when there have been
enough of them.  `Rounds.Tally` says what the updates of all iterations have to do with that.
-/

namespace NeighborGraph

open NeighborGraph.Action

/-! ### Phases and tasks -/

namespace Descent

variable {P : Standing → Prop}

theorem ensures_phase {α : Type} {name : String} {m : Action Descent α}
    {Q : α → Standing → Prop}
    (h : m.Ensures (fun d => P d.standing) fun a d => Q a d.standing) :
    (phase name m).Ensures (fun d => P d.standing) fun a d => Q a d.standing := by
  refine ensures_bind (keeps_report _) fun _ => ensures_bind h fun a => ?_
  exact ensures_bind (keeps_report (P := Q a) _) fun _ => ensures_pure fun _ known => known

theorem keeps_phase {α : Type} {name : String} {m : Action Descent α} (h : Keeps P m) :
    Keeps P (phase name m) := ensures_phase h

/-- A task for every range keeps what every task keeps, if it has to do with neither signals nor
streams. -/
theorem ensures_overTiles {kept : Descent → Prop} (ignores : Tasks.IgnoresSignals kept)
    (drawn : drawSeed.Ensures kept fun _ => kept)
    (fresh : ∀ seed, (reseed seed).Ensures kept fun _ => kept) {α : Type} {tiles : List α}
    {signal : Nat} {task : Nat → α → Action Descent Unit}
    (each : ∀ signal, ∀ a ∈ tiles, (task signal a).Ensures kept fun _ => kept) :
    (overTiles tiles signal task).Ensures kept fun _ => kept := by
  refine ensures_bind (Tasks.ensures_child ignores signal) fun below => ?_
  refine ensures_bind (ensures_collect fun _ _ => drawn) fun seeds => ?_
  refine ensures_discard (Tasks.ensures_run fun task' member => ?_)
  obtain ⟨⟨a, seed⟩, paired, rfl⟩ := List.mem_map.mp member
  exact ensures_bind (fresh seed) fun _ => each below a (List.of_mem_zip paired).1

theorem keeps_overTiles {α : Type} {tiles : List α} {signal : Nat}
    {task : Nat → α → Action Descent Unit} (each : ∀ signal a, Keeps P (task signal a)) :
    Keeps P (overTiles tiles signal task) :=
  ensures_overTiles (ignoresSignals P) keeps_drawSeed keeps_reseed fun signal a _ => each signal a

theorem keeps_splitTiles {comparison : Comparison} {n : Nat} (lasts : Lasting comparison n P)
    (tiles : List NodeRange) (sampleSize signal : Nat) :
    Keeps P (splitTiles tiles sampleSize signal) := by
  refine ensures_bind (keeps_read _) fun shares => ensures_bind (keeps_check shares) fun shares => ?_
  refine keeps_overTiles fun signal share => keeps_overNodes fun node _ => ?_
  exact keeps_splitList lasts sampleSize share node

end Descent

namespace Search

open Descent

variable {s : Search} {P : Standing → Prop}

theorem keeps_seedAll (lasts : Lasting s.comparison s.nodeCount P) (signal : Nat) :
    Keeps P (s.seedAll signal) :=
  keeps_phase (keeps_overTiles fun signal p => keeps_seedLists lasts _ rfl _ signal p)

/-- An iteration is made of steps. -/
theorem keeps_iteration (lasts : Lasting s.comparison s.nodeCount P) (signal : Nat) :
    Keeps P (s.iteration signal) := by
  refine ensures_bind (keeps_phase (keeps_splitTiles lasts _ _ signal)) fun _ => ?_
  refine ensures_bind (keeps_phase ?_) fun _ => keeps_phase ?_
  · refine ensures_bind (keeps_update fun _ => rfl) fun _ => ?_
    exact keeps_reverseMaps s.nodeCount _ signal
  · refine ensures_bind (keeps_update fun _ => rfl) fun _ => ?_
    refine keeps_overTiles fun signal p => keeps_overNodes fun node _ => ?_
    exact keeps_joinNode (show Lasting s.joinRule.comparison s.nodeCount P from lasts) node

end Search

/-! ### Iterations -/

/-- What the updates of all iterations, latest first, say about the end of at most `most` of them:
only the last one may have been quiet, and if it was not, there have been `most`. -/
structure Rounds.Tally (limit most : Nat) (counts : List Nat) (r : Rounds) : Prop where
  iterations : r.iterations = counts.length
  bounded : r.iterations ≤ most
  earlier : ∀ updates ∈ counts.tail, limit < updates
  quiet : r.converged = true → ∃ last before, counts = last :: before ∧ last ≤ limit
  loud : r.converged = false → r.iterations = most ∧ ∀ updates ∈ counts, limit < updates

theorem Rounds.Tally.iterations_pos {limit most : Nat} {counts : List Nat} {r : Rounds}
    (tally : r.Tally limit most counts) (some : 0 < most) : 1 ≤ r.iterations := by
  cases converged : r.converged with
  | true =>
    obtain ⟨last, before, counts, -⟩ := tally.quiet converged
    rw [tally.iterations, counts]
    exact Nat.le_add_left 1 _
  | false =>
    rw [(tally.loud converged).1]
    exact some

namespace Search

open Descent

variable {s : Search} {P : Standing → Prop}

/-- An iteration leads from one standing with a property to another one, once its updates are noted. -/
def Round (s : Search) (signal : Nat) (P : Standing → Prop) : Prop :=
  ∀ counts, (s.iteration signal).Ensures
    (fun d => P d.standing ∧ d.standing.updateCounts = counts)
    fun _ d => P { d.standing with updateCounts := d.updates :: counts }
      ∧ d.standing.updateCounts = counts

/-- For a lasting property that noting updates keeps, every iteration is such a round. -/
theorem round_of_lasting (lasts : Lasting s.comparison s.nodeCount P)
    (blind : ∀ t updateCounts, P t → P { t with updateCounts }) (signal : Nat) :
    s.Round signal P := fun counts =>
  (keeps_iteration (lasts.withCounts counts) signal).mono (fun _ kept => kept)
    fun _ d kept => ⟨blind d.standing _ kept.1, kept.2⟩

/-- Every iteration but the last one was followed by another, so its updates were above the limit. -/
theorem ensures_iterate {signal : Nat} (round : s.Round signal P) (more : Nat)
    (rounds : Rounds) (counts : List Nat) (open_ : rounds.converged = false)
    (iterations : rounds.iterations = counts.length)
    (loud : ∀ updates ∈ counts, s.config.quietLimit s.nodeCount < updates) :
    (s.iterate signal more rounds).Ensures
      (fun d => P d.standing ∧ d.standing.updateCounts = counts) fun r d =>
        P d.standing
          ∧ r.Tally (s.config.quietLimit s.nodeCount) (counts.length + more)
              d.standing.updateCounts := by
  -- on the iterations that are left; the updates of the earlier ones are carried along
  induction more generalizing rounds counts with
  | zero =>
    refine ensures_pure fun d ⟨kept, same⟩ => ⟨kept, ?_⟩
    rw [same]
    refine ⟨iterations, Nat.le_of_eq iterations, ?_, ?_, fun _ => ⟨iterations, loud⟩⟩
    · exact fun updates member => loud updates (List.mem_of_mem_tail member)
    · intro converged
      rw [open_] at converged
      exact Bool.noConfusion converged
  | succ more ih =>
    refine ensures_bind (round counts) fun _ => ?_
    refine ensures_bind (R := fun updates d =>
      P { d.standing with updateCounts := updates :: counts }
        ∧ d.standing.updateCounts = counts) (ensures_read fun _ kept => kept) fun updates => ?_
    refine ensures_bind (keeps_read (P := fun t => P { t with updateCounts := updates :: counts }
      ∧ t.updateCounts = counts) _) fun pairs => ?_
    refine ensures_bind (R := fun _ d =>
      P d.standing ∧ d.standing.updateCounts = updates :: counts) ?_ fun _ => ?_
    · refine ensures_update fun d ⟨kept, same⟩ => ?_
      have noted : updates :: d.updateCounts = updates :: counts := congrArg (updates :: ·) same
      refine ⟨?_, noted⟩
      rw [← noted] at kept
      exact kept
    refine ensures_bind (keeps_note (P := fun t => P t ∧ t.updateCounts = updates :: counts) _ _)
      fun _ => ?_
    refine ensures_ite (fun few => ?_) fun many => ?_
    · refine ensures_pure fun d ⟨kept, same⟩ => ⟨kept, ?_⟩
      rw [same]
      refine ⟨congrArg (· + 1) iterations, ?_, loud, fun _ => ⟨updates, counts, rfl, few⟩, ?_⟩
      · show rounds.iterations + 1 ≤ _
        omega
      · intro converged
        exact Bool.noConfusion converged
    · have counted : (updates :: counts).length + more = counts.length + (more + 1) := by
        rw [List.length_cons]
        omega
      rw [← counted]
      refine ih _ _ open_ (congrArg (· + 1) iterations) ?_
      intro count member
      rcases List.mem_cons.mp member with rfl | before
      · exact Nat.not_le.mp many
      · exact loud count before

/-! ### Cutting off -/

/-- What the last phase leaves of a list. -/
def cut (s : Search) (l : NeighborList) : NeighborList :=
  if 0.0 < s.config.similarityCutoff then l.filter s.config.similarityCutoff else l

end Search

theorem NeighborList.filter_filter (l : NeighborList) (cutoff : Float) :
    (l.filter cutoff).filter cutoff = l.filter cutoff := by
  rw [filter, filter]
  congr 1
  rw [List.filter_filter]
  congr 1
  funext x
  exact Bool.and_self _

/-- The standing after the list of one node is filtered. -/
def Standing.filterAt (cutoff : Float) (t : Standing) (node : Nat) : Standing :=
  { t with lists := t.lists.modify node (·.filter cutoff) }

namespace Descent

variable {P Q : Standing → Prop} {cutoff : Float}

theorem ensures_filterList {node : Nat} (step : ∀ t, P t → Q (t.filterAt cutoff node)) :
    (filterList cutoff node).Ensures (fun d => P d.standing) fun _ d => Q d.standing :=
  ensures_bind (keeps_requireList node) fun _ => ensures_update fun d kept => step d.standing kept

theorem keeps_filterLists (each : ∀ t node, P t → P (t.filterAt cutoff node)) (p : NodeRange) :
    Keeps P (filterLists cutoff p) := by
  refine ensures_bind (ensures_forEach fun node member => ?_) fun _ => keeps_report _
  exact ensures_filterList fun t => each t node

theorem ensures_filterLists_mem (each : ∀ t node, P t → P (t.filterAt cutoff node))
    (stays : ∀ t node, Q t → Q (t.filterAt cutoff node)) {v : Nat}
    (there : ∀ t, P t → Q (t.filterAt cutoff v)) {p : NodeRange} (member : v ∈ p.nodes) :
    (filterLists cutoff p).Ensures (fun d => P d.standing) fun _ d => Q d.standing := by
  refine ensures_bind (ensures_forEach_mem member ?_ ?_ ?_) fun _ => keeps_report _
  · exact fun node _ => ensures_filterList fun t => each t node
  · exact ensures_filterList there
  · exact fun node _ => ensures_filterList fun t => stays t node

theorem keeps_filterAll (each : ∀ t node, P t → P (t.filterAt cutoff node))
    (concurrency nodeCount minBatch signal : Nat) :
    Keeps P (Tasks.overRanges concurrency nodeCount minBatch signal (filterLists cutoff)) := by
  refine ensures_bind (Tasks.ensures_child (ignoresSignals P) signal) fun below => ?_
  refine ensures_bind (Tasks.ensures_run fun task member => ?_) fun _ => keeps_pure _
  obtain ⟨p, -, rfl⟩ := List.mem_map.mp member
  exact keeps_filterLists each p

/-- Every node lies in a range, so its list is filtered. -/
theorem ensures_filterAll_mem (each : ∀ t node, P t → P (t.filterAt cutoff node))
    (stays : ∀ t node, Q t → Q (t.filterAt cutoff node)) {v nodeCount : Nat}
    (there : ∀ t, P t → Q (t.filterAt cutoff v)) (inside : v < nodeCount)
    (concurrency minBatch signal : Nat) :
    (Tasks.overRanges concurrency nodeCount minBatch signal (filterLists cutoff)).Ensures
      (fun d => P d.standing) fun _ d => Q d.standing := by
  obtain ⟨p, tile, member⟩ := NodeRange.exists_mem_tiles concurrency minBatch inside
  refine ensures_bind (Tasks.ensures_child (ignoresSignals P) signal) fun below => ?_
  refine ensures_bind (R := fun _ d => Q d.standing)
    (Tasks.ensures_run_mem (List.mem_map_of_mem tile) ?_ ?_ ?_) fun _ => keeps_pure _
  · intro task member
    obtain ⟨p, -, rfl⟩ := List.mem_map.mp member
    exact keeps_filterLists each p
  · exact ensures_filterLists_mem each stays there member
  · intro task member
    obtain ⟨p, -, rfl⟩ := List.mem_map.mp member
    exact keeps_filterLists stays p

theorem getElem?_filterAt_of_filtered {t u : Standing} {v : Nat}
    (h : u.lists[v]? = t.lists[v]?.map (·.filter cutoff)) (node : Nat) :
    (u.filterAt cutoff node).lists[v]? = t.lists[v]?.map (·.filter cutoff) := by
  rw [Standing.filterAt, Array.getElem?_modify]
  split
  · rw [h, Option.map_map]
    congr 1
    funext l
    exact l.filter_filter cutoff
  · exact h

/-- Filtering range by range filters every list: once is as good as several times. -/
theorem getElem?_filterAll {d d' : Descent} {nodeCount v : Nat} (inside : v < nodeCount)
    {concurrency minBatch signal : Nat}
    (run : Tasks.overRanges concurrency nodeCount minBatch signal (filterLists cutoff) d
      = (.ok (), d')) :
    d'.standing.lists[v]? = d.standing.lists[v]?.map (·.filter cutoff) := by
  -- whatever is filtered before and after, the list of `v` is as it was until its range comes
  let filtered (u : Standing) : Prop :=
    u.lists[v]? = d.standing.lists[v]?.map (·.filter cutoff)
  have stays (u : Standing) (node : Nat) (done : filtered u) : filtered (u.filterAt cutoff node) :=
    getElem?_filterAt_of_filtered done node
  have there (u : Standing) (kept : u.lists[v]? = d.standing.lists[v]? ∨ filtered u) :
      filtered (u.filterAt cutoff v) := by
    rcases kept with before | done
    · show (u.lists.modify v _)[v]? = _
      rw [Array.getElem?_modify, if_pos rfl, before]
    · exact stays u v done
  have each (u : Standing) (node : Nat) (kept : u.lists[v]? = d.standing.lists[v]? ∨ filtered u) :
      (u.filterAt cutoff node).lists[v]? = d.standing.lists[v]?
        ∨ filtered (u.filterAt cutoff node) := by
    by_cases same : node = v
    · rw [same]
      exact .inr (there u kept)
    · rcases kept with before | done
      · refine .inl ?_
        show (u.lists.modify node _)[v]? = _
        rw [Array.getElem?_modify, if_neg same, before]
      · exact .inr (stays u node done)
  exact ensures_filterAll_mem each stays there inside concurrency minBatch signal d () d'
    (.inl rfl) run

theorem ensures_filterAll {t : Standing} {nodeCount : Nat} (size : t.lists.size = nodeCount)
    (concurrency minBatch signal : Nat) :
    (Tasks.overRanges concurrency nodeCount minBatch signal (filterLists cutoff)).Ensures
      (fun d => d.standing = t) fun _ d =>
        d.standing = { t with lists := t.lists.map (·.filter cutoff) } := by
  intro d a d' stands run
  subst stands
  let rest (u : Standing) : Prop := u.lists.size = d.standing.lists.size
    ∧ u = { d.standing with lists := u.lists }
  have each (u : Standing) (node : Nat) (kept : rest u) : rest (u.filterAt cutoff node) :=
    ⟨Array.size_modify.trans kept.1, congrArg (Standing.filterAt cutoff · node) kept.2⟩
  obtain ⟨size', same⟩ : rest d'.standing :=
    keeps_filterAll each concurrency nodeCount minBatch signal d a d' ⟨rfl, rfl⟩ run
  have lists : d'.standing.lists = d.standing.lists.map (·.filter cutoff) := by
    apply Array.ext_getElem?
    intro v
    rw [Array.getElem?_map]
    by_cases inside : v < nodeCount
    · exact getElem?_filterAll inside run
    · rw [Array.getElem?_eq_none (by omega), Array.getElem?_eq_none (by omega)]
      rfl
  rw [same, lists]

end Descent

namespace Search

open Descent

variable {s : Search} {P : Standing → Prop}

theorem ensures_cutOff {t : Standing} (size : t.lists.size = s.nodeCount) (signal : Nat) :
    (s.cutOff signal).Ensures (fun d => d.standing = t) fun _ d =>
      d.standing = { t with lists := t.lists.map s.cut } := by
  refine ensures_ite (fun some => ?_) fun none => ensures_pure fun d stands => ?_
  · have filters : s.cut = (·.filter s.config.similarityCutoff) := by
      funext l
      rw [cut, if_pos some]
    rw [filters]
    exact ensures_phase (P := (· = t)) (Q := fun _ u => u = { t with
      lists := t.lists.map (·.filter s.config.similarityCutoff) })
      (ensures_filterAll size _ _ signal)
  · have keeps : s.cut = id := by
      funext l
      rw [cut, if_neg none]
      rfl
    rw [keeps, Array.map_id]
    exact stands

/-! ### The whole run -/

/-- What is left of a standing before the last phase, and what is told about the iterations. -/
structure Ends (s : Search) (t : Standing) (o : Outcome) (d : Descent) : Prop where
  lists : o.lists = t.lists.map s.cut
  calls : d.calls = t.calls
  encounters : d.encounters = t.encounters
  updateCounts : d.updateCounts = t.updateCounts
  rounds : ∃ r : Rounds, r.iterations = o.iterations ∧ r.converged = o.converged
    ∧ r.Tally (s.config.quietLimit s.nodeCount) s.config.maxIterations.toNat d.updateCounts

variable {P₀ : Standing → Prop}

/-- The property of the first standing may be another one than that of the standings after random
candidates were compared. -/
theorem ensures_descend {signal : Nat} (sized : ∀ t, P t → t.lists.size = s.nodeCount)
    (seeds : (s.seedAll signal).Ensures (fun d => P₀ d.standing ∧ d.standing.updateCounts = [])
      fun _ d => P d.standing ∧ d.standing.updateCounts = [])
    (round : s.Round signal P) (seed : UInt64) :
    (s.descend seed signal).Ensures (fun d => P₀ d.standing ∧ d.standing.updateCounts = [])
      fun o d => ∃ t, P t ∧ s.Ends t o d := by
  let Q₀ (t : Standing) : Prop := P₀ t ∧ t.updateCounts = []
  let Q (t : Standing) : Prop := P t ∧ t.updateCounts = []
  let told (r : Rounds) (t : Standing) : Prop := P t ∧
    r.Tally (s.config.quietLimit s.nodeCount) s.config.maxIterations.toNat t.updateCounts
  refine ensures_bind (keeps_master (P := Q₀) seed) fun _ => ?_
  refine ensures_bind (keeps_note (P := Q₀) _ _) fun _ => ?_
  refine ensures_bind seeds fun _ => ?_
  refine ensures_bind (keeps_read (P := Q) _) fun found => ?_
  refine ensures_bind (ensures_phase (P := Q) (Q := told) ?_) fun r => ?_
  · have iterations := ensures_iterate round s.config.maxIterations.toNat
      { iterations := 0, converged := false, pairs := found } [] rfl rfl
      fun _ none => absurd none List.not_mem_nil
    rw [List.length_nil, Nat.zero_add] at iterations
    exact iterations
  refine ensures_of_standing (P := told r) fun t ⟨kept, tally⟩ => ?_
  refine ensures_bind (ensures_cutOff (sized t kept) signal) fun _ => ?_
  refine ensures_bind (keeps_note (P := (· = _)) _ _) fun _ => ?_
  refine ensures_bind (R := fun lists d =>
    d.standing = { t with lists := t.lists.map s.cut } ∧ lists = t.lists.map s.cut) ?_ fun lists => ?_
  · refine ensures_read fun d stands => ⟨stands, ?_⟩
    exact congrArg Standing.lists stands
  · refine ensures_pure fun d ⟨stands, lists⟩ => ⟨t, kept, lists, ?_, ?_, ?_, r, rfl, rfl, ?_⟩
    · exact congrArg Standing.calls stands
    · exact congrArg Standing.encounters stands
    · exact congrArg Standing.updateCounts stands
    · rw [show d.updateCounts = t.updateCounts from congrArg Standing.updateCounts stands]
      exact tally

/-- What holds after the random candidates and after every iteration holds at the end of every run
that succeeds. -/
theorem of_rounds {signal : Nat} (sized : ∀ t, P t → t.lists.size = s.nodeCount)
    (seeds : (s.seedAll signal).Ensures (fun d => P₀ d.standing ∧ d.standing.updateCounts = [])
      fun _ d => P d.standing ∧ d.standing.updateCounts = [])
    (round : s.Round signal P) {entropy : UInt64} {signals : Signals} {o : Outcome} {d : Descent}
    (first : P₀ (start signals s.nodeCount (s.config.listCapacity s.nodeCount)).standing)
    (nodes : 2 ≤ s.nodeCount) (places : s.config.topK ≠ 0)
    (run : s.run entropy signals signal = (.ok o, d)) :
    s.config.validate = .ok () ∧ ∃ t, P t ∧ s.Ends t o d := by
  have something : ¬(s.nodeCount < 2 ∨ s.config.topK = 0) := by
    rintro (few | none)
    · omega
    · exact places none
  have computed : (s.compute entropy signal).Ensures
      (fun d => P₀ d.standing ∧ d.standing.updateCounts = []) fun o d =>
        s.config.validate = .ok () ∧ ∃ t, P t ∧ s.Ends t o d := by
    rw [compute, if_neg something]
    refine ensures_bind (R := fun _ d => (P₀ d.standing ∧ d.standing.updateCounts = [])
      ∧ s.config.validate = .ok ()) (ensures_check fun _ valid _ kept => ⟨kept, valid⟩) fun _ => ?_
    refine ensures_of_fact fun valid => ?_
    exact (ensures_descend sized seeds round _).mono (fun _ kept => kept)
      fun o d ends => ⟨valid, ends⟩
  exact computed _ o d ⟨first, rfl⟩ run

/-- What holds of empty lists and lasts holds at the end of every run that succeeds. -/
theorem of_run (lasts : Lasting s.comparison s.nodeCount P)
    (blind : ∀ t updateCounts, P t → P { t with updateCounts }) {entropy : UInt64}
    {signals : Signals} {signal : Nat} {o : Outcome} {d : Descent}
    (first : P (start signals s.nodeCount (s.config.listCapacity s.nodeCount)).standing)
    (nodes : 2 ≤ s.nodeCount) (places : s.config.topK ≠ 0)
    (run : s.run entropy signals signal = (.ok o, d)) :
    s.config.validate = .ok () ∧ ∃ t, P t ∧ s.Ends t o d :=
  of_rounds lasts.sized (keeps_seedAll (lasts.withCounts []) signal)
    (round_of_lasting lasts blind signal) first nodes places run

/-- With nothing to compare, a run succeeds with nothing. -/
theorem run_of_nothing (nothing : s.nodeCount < 2 ∨ s.config.topK = 0) (entropy : UInt64)
    (signals : Signals) (signal : Nat) : (s.run entropy signals signal).1 = .ok Outcome.empty := by
  rw [run, compute, if_pos nothing]
  rfl

/-- Otherwise an outcome has as many nodes as the search. -/
theorem nodeCount_of_run {entropy : UInt64} {signals : Signals} {signal : Nat} {o : Outcome}
    {d : Descent} (something : ¬(s.nodeCount < 2 ∨ s.config.topK = 0))
    (run : s.run entropy signals signal = (.ok o, d)) : o.nodeCount = s.nodeCount := by
  have computed : (s.compute entropy signal).Yields fun o => o.nodeCount = s.nodeCount := by
    rw [compute, if_neg something]
    refine yields_bind (yields_any _) fun _ _ => yields_bind (yields_any _) fun _ _ => ?_
    refine yields_bind (yields_any _) fun _ _ => yields_bind (yields_any _) fun _ _ => ?_
    refine yields_bind (yields_any _) fun _ _ => yields_bind (yields_any _) fun _ _ => ?_
    refine yields_bind (yields_any _) fun _ _ => yields_bind (yields_any _) fun _ _ => ?_
    exact yields_bind (yields_any _) fun _ _ => yields_pure rfl
  exact computed _ o d trivial run

end Search

end NeighborGraph
