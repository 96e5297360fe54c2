import NeighborGraph.Proofs.Descent.Footing
import NeighborGraph.Proofs.Descent.Result

/-!
# A run cannot fail

A search in a graph that callers make, with settings that are accepted and a comparison that never
crashes, has one reason to fail: its signal stopped (`Search.run_succeeds`).  No range of random numbers
is empty, no probability is outside zero and one, no index lacks its list, no slots are cut off where there
are none, and no node is ever its own candidate.

The ranges of a phase hold every node once, so its tasks stay within the lists; a descent that is
`Search.Poised`, on firm footing and with sound lists, stays so through every phase.
-/

namespace NeighborGraph

open NeighborGraph.Action

namespace Firm

variable {n known signal below : Nat} {t : Footing}

/-- Tasks that look at the signal of the run itself. -/
theorem release (h : Firm n known signal below t) : Firm n known signal signal t :=
  ⟨h.size, h.old, h.new, h.reverseOld, h.reverseNew, .self h.signals.inside h.signals.known_le⟩

/-- Tasks that look at a new child of the signal. -/
theorem child (h : Firm n known signal below t) :
    Firm n known signal t.signals.cells.size { t with signals := (t.signals.child signal).1 } :=
  ⟨h.size, h.old, h.new, h.reverseOld, h.reverseNew, h.signals.child⟩

end Firm

namespace Descent

/-- Reports change neither the property a phase starts with nor the one it ends with. -/
theorem delivers_phase {α : Type} {name : String} {m : Action Descent α} {I J : Descent → Prop}
    {excuse : Fault → Descent → Prop}
    (told : ∀ event d, I d → I { d with events := d.events.push event })
    (told' : ∀ event d, J d → J { d with events := d.events.push event })
    (h : m.Delivers I (fun _ => J) excuse) : (phase name m).Delivers I (fun _ => J) excuse := by
  refine delivers_bind (R := fun _ => I) (delivers_update (told (.began name))) fun _ => ?_
  refine delivers_bind h fun a => ?_
  refine delivers_bind (R := fun _ => J) (delivers_update (told' (.ended name))) fun _ => ?_
  exact delivers_pure fun _ known => known

end Descent

namespace Search

open Descent

/-- The lists of a search are sound, and the next step has what it relies on. -/
def Poised (s : Search) (known signal below : Nat) (d : Descent) : Prop :=
  Firm s.nodeCount known signal below d.footing
    ∧ Sound s.comparison s.nodeCount (s.config.listCapacity s.nodeCount) d.standing

/-- An action keeps a search poised, unless the signal of the run stops. -/
abbrev Stays {α : Type} (s : Search) (known signal below : Nat) (m : Action Descent α) : Prop :=
  m.Delivers (s.Poised known signal below) (fun _ => s.Poised known signal below)
    (Tasks.Stopped signal)

variable {α : Type} {s : Search} {known signal below : Nat}

theorem following_of_poised : Tasks.Following known signal below (s.Poised known signal below) :=
  fun _ poised => poised.1.signals

/-- Steps keep lists sound, so footing is all that is left to show. -/
theorem stays_of_firmly {m : Action Descent α} (firmly : Firmly s.nodeCount known signal below m)
    (keeps : Keeps (Sound s.comparison s.nodeCount (s.config.listCapacity s.nodeCount)) m) :
    s.Stays known signal below m := firmly.and_ensures keeps

theorem stays_report (event : ProgressEvent) : s.Stays known signal below (report event) :=
  delivers_update fun _ poised => poised

theorem stays_note (level : LogLevel) (text : String) :
    s.Stays known signal below (note level text) := delivers_update fun _ poised => poised

theorem stays_read (f : Descent → α) : s.Stays known signal below (read f) :=
  delivers_read fun _ poised => poised

theorem stays_pure (a : α) : s.Stays known signal below (Pure.pure a) :=
  delivers_pure fun _ poised => poised

/-- Any stream will do; to look into the one at hand would mean to compute it. -/
theorem stays_reseed (seed : UInt64) : s.Stays known signal below (reseed seed) := by
  have any (stream : Random.Stream) :
      s.Stays known signal below (update fun d => { d with stream }) :=
    delivers_update fun _ poised => poised
  exact any _

theorem stays_master (seed : UInt64) : s.Stays known signal below
    (update fun d => { d with master := Random.Stream.ofSeed seed }) := by
  have any (master : Random.Stream) :
      s.Stays known signal below (update fun d => { d with master }) :=
    delivers_update fun _ poised => poised
  exact any _

theorem stays_phase {name : String} {m : Action Descent α} (h : s.Stays known signal below m) :
    s.Stays known signal below (phase name m) :=
  delivers_phase (fun _ _ poised => poised) (fun _ _ poised => poised) h

/-! ### Tasks -/

theorem stays_overNodes {p : NodeRange} {f : Nat → Action Descent Unit}
    (each : ∀ node ∈ p.nodes, s.Stays known signal below (f node)) :
    s.Stays known signal below (overNodes below p f) := by
  refine delivers_bind (delivers_forEach fun node member => ?_) fun _ => stays_report _
  exact delivers_bind (Tasks.delivers_poll following_of_poised _) fun _ => each node member

/-- Tasks on whatever is given to them, one after the other, under a child of the run's signal. -/
theorem stays_overTiles {tiles : List α} {task : Nat → α → Action Descent Unit}
    (each : ∀ below, ∀ a ∈ tiles, s.Stays known signal below (task below a)) :
    s.Stays known signal signal (overTiles tiles signal task) := by
  refine delivers_bind (R := fun below d => s.Poised known signal below d)
    (Tasks.delivers_child fun d poised => ⟨poised.1.child, poised.2⟩) fun below => ?_
  have drawn : s.Stays known signal below drawSeed :=
    delivers_zoom Random.nextSeed_total (yields_any _) fun _ _ _ poised _ => poised
  refine delivers_bind (delivers_collect fun _ _ => drawn) fun seeds => ?_
  refine delivers_discard ((Tasks.delivers_run following_of_poised fun task' member => ?_).mono
    (fun _ poised => poised) fun _ d poised => ⟨poised.1.release, poised.2⟩)
  obtain ⟨⟨a, seed⟩, paired, rfl⟩ := List.mem_map.mp member
  exact delivers_bind (stays_reseed seed) fun _ => each below a (List.of_mem_zip paired).1

/-! ### Phases -/

theorem stays_seedAll (calm : s.comparison.Calm s.nodeCount known) (walkable : s.graph.Walkable) :
    s.Stays known signal signal (s.seedAll signal) := by
  refine stays_phase (stays_overTiles fun below p tile => stays_overNodes fun node member => ?_)
  have inside : node < s.nodeCount := NodeRange.lt_of_mem_tiles tile member
  refine stays_of_firmly (firmly_seedNode calm _ walkable _ inside) ?_
  exact keeps_seedNode (lasting_sound _ _ _) _ rfl _ node

/-- The maps have a slot for every node, so handing them out to the ranges fails for none. -/
theorem stays_splitAll :
    s.Stays known signal signal (phase "Split old and new neighbors"
      (splitTiles s.tiles (s.config.sampleSize s.nodeCount) signal)) := by
  refine stays_phase fun d poised => ?_
  rw [tiles, splitTiles_eq poised.1.old.size poised.1.new.size]
  refine stays_overTiles (fun below share given => ?_) d poised
  obtain ⟨p, tile, rfl⟩ := List.mem_map.mp given
  refine stays_overNodes fun node member => ?_
  have inside : node < s.nodeCount := NodeRange.lt_of_mem_tiles tile member
  have keeps := keeps_splitList (lasting_sound s.comparison s.nodeCount
    (s.config.listCapacity s.nodeCount)) (s.config.sampleSize s.nodeCount) (.own p) node
  exact ((delivers_splitList inside member _).and_ensures keeps).mono
    (fun _ poised => ⟨poised, poised.2⟩) fun _ _ poised => poised

theorem stays_reverseMaps (batch : Nat) :
    s.Stays known signal signal (clearReverse >>= fun _ => reverseMaps s.nodeCount batch signal) := by
  refine delivers_bind (R := fun _ => s.Poised known signal signal) ?_ fun _ => ?_
  · refine delivers_update fun d ⟨firm, sound⟩ => ⟨?_, sound⟩
    refine ⟨firm.size, firm.old, firm.new, ?_, ?_, firm.signals⟩
    · rw [← firm.reverseOld.size]
      exact NodeMap.sane_empty _
    · rw [← firm.reverseNew.size]
      exact NodeMap.sane_empty _
  · refine delivers_forEach fun node member => ?_
    have inside := List.mem_range.mp member
    refine delivers_bind (Tasks.delivers_poll following_of_poised node) fun _ => ?_
    refine delivers_bind (stays_of_firmly (firmly_reverseNode inside) (keeps_reverseNode node))
      fun _ => ?_
    exact delivers_ite (fun _ => stays_report _) fun _ => stays_pure ()

/-- An iteration keeps a search poised for the next one. -/
theorem stays_iteration (calm : s.comparison.Calm s.nodeCount known) (several : 2 ≤ s.nodeCount)
    (unit : 0.0 ≤ s.config.perturbationRate ∧ s.config.perturbationRate ≤ 1.0) :
    s.Stays known signal signal (s.iteration signal) := by
  refine delivers_bind stays_splitAll fun _ => ?_
  refine delivers_bind (stays_phase (stays_reverseMaps _)) fun _ => stays_phase ?_
  refine delivers_bind (R := fun _ => s.Poised known signal signal)
    (delivers_update fun _ poised => poised) fun _ => ?_
  refine stays_overTiles fun below p tile => stays_overNodes fun node member => ?_
  have inside : node < s.nodeCount := NodeRange.lt_of_mem_tiles tile member
  have calm : s.joinRule.comparison.Calm s.nodeCount known := calm
  refine stays_of_firmly (firmly_joinNode calm unit several inside) ?_
  exact keeps_joinNode (lasting_sound s.joinRule.comparison _ _) node

theorem stays_iterate (calm : s.comparison.Calm s.nodeCount known) (several : 2 ≤ s.nodeCount)
    (unit : 0.0 ≤ s.config.perturbationRate ∧ s.config.perturbationRate ≤ 1.0) (more : Nat)
    (rounds : Rounds) : s.Stays known signal signal (s.iterate signal more rounds) := by
  -- on the iterations that are left
  induction more generalizing rounds with
  | zero => exact stays_pure rounds
  | succ more ih =>
    refine delivers_bind (stays_iteration calm several unit) fun _ => ?_
    refine delivers_bind (stays_read _) fun updates => ?_
    refine delivers_bind (stays_read _) fun pairs => ?_
    refine delivers_bind (R := fun _ => s.Poised known signal signal) ?_ fun _ => ?_
    · exact delivers_update fun d ⟨firm, sound⟩ => ⟨firm, sound.size, sound.recorded, sound.lists⟩
    refine delivers_bind (stays_note _ _) fun _ => ?_
    exact delivers_ite (fun _ => stays_pure _) fun _ => ih _

/-- The last phase leaves a list for every node. -/
theorem firmly_cutOff : Firmly s.nodeCount known signal signal (s.cutOff signal) := by
  refine delivers_ite (fun _ => ?_) fun _ => firmly_pure ()
  refine delivers_phase (fun _ _ firm => firm) (fun _ _ firm => firm) ?_
  refine delivers_bind (R := fun below d => Firm s.nodeCount known signal below d.footing)
    (Tasks.delivers_child fun _ firm => firm.child) fun below => ?_
  have filtered {p : NodeRange} (tile : p ∈ s.tiles) :
      Firmly s.nodeCount known signal below (filterLists s.config.similarityCutoff p) := by
    refine delivers_bind (delivers_forEach fun node member => ?_) fun _ => firmly_update fun _ => rfl
    refine delivers_bind (firmly_requireList (NodeRange.lt_of_mem_tiles tile member)) fun _ => ?_
    refine delivers_update fun d firm => ?_
    exact ⟨Array.size_modify.trans firm.size, firm.old, firm.new, firm.reverseOld, firm.reverseNew,
      firm.signals⟩
  refine delivers_bind (Tasks.delivers_run (fun _ firm => firm.signals) fun task member => ?_)
    fun _ => delivers_pure fun _ firm => firm.release
  obtain ⟨p, tile, rfl⟩ := List.mem_map.mp member
  exact filtered tile

/-! ### Whole runs -/

theorem delivers_descend (calm : s.comparison.Calm s.nodeCount known)
    (walkable : s.graph.Walkable) (several : 2 ≤ s.nodeCount) (valid : s.config.validate = .ok ())
    (seed : UInt64) :
    (s.descend seed signal).Delivers (s.Poised known signal signal) (fun _ _ => True)
      (Tasks.Stopped signal) := by
  have unit := Config.perturbationRate_unit valid
  refine delivers_bind (stays_master seed) fun _ => ?_
  refine delivers_bind (stays_note _ _) fun _ => ?_
  refine delivers_bind (stays_seedAll calm walkable) fun _ => ?_
  refine delivers_bind (stays_read _) fun found => ?_
  refine delivers_bind (stays_phase (stays_iterate calm several unit _ _)) fun rounds => ?_
  refine delivers_bind (firmly_cutOff.mono (fun _ poised => poised.1) fun _ _ firm => firm)
    fun _ => ?_
  refine delivers_bind (firmly_update fun _ => rfl) fun _ => ?_
  refine delivers_bind (firmly_read _) fun lists => ?_
  exact delivers_pure fun _ _ => trivial

theorem poised_start {signals : Signals} {signal : Nat} (inside : signal < signals.cells.size) :
    s.Poised signals.cells.size signal signal
      (start signals s.nodeCount (s.config.listCapacity s.nodeCount)) := by
  refine ⟨⟨Array.size_replicate, ?_, ?_, ?_, ?_, .self inside (Nat.le_refl _)⟩, ?_⟩
  · exact NodeMap.sane_empty _
  · exact NodeMap.sane_empty _
  · exact NodeMap.sane_empty _
  · exact NodeMap.sane_empty _
  · exact sound_start _ signals _ _

theorem delivers_compute (calm : s.comparison.Calm s.nodeCount known)
    (walkable : s.graph.Walkable) (valid : s.config.validate = .ok ()) (entropy : UInt64) :
    (s.compute entropy signal).Delivers (s.Poised known signal signal) (fun _ _ => True)
      (Tasks.Stopped signal) := by
  refine delivers_ite (fun _ => ?_) fun something => ?_
  · exact delivers_bind (stays_note _ _) fun _ => delivers_pure fun _ _ => trivial
  · refine delivers_bind (R := fun _ => s.Poised known signal signal)
      (delivers_check valid fun _ poised => poised) fun _ => ?_
    exact delivers_descend calm walkable (by omega) valid _

/-- In a graph that callers make, with accepted settings and a comparison that always answers, a run
succeeds as long as its signal runs, whatever the sampler, the ranges and the seed.  If the signal stops,
that is the only reason for it to fail.  The ranges of a phase hold every node once, in order. -/
theorem run_succeeds (made : s.graph.Made) (valid : s.config.validate = .ok ()) {signals : Signals}
    (calm : s.comparison.Calm s.nodeCount signals.cells.size) (inside : signal < signals.cells.size)
    (entropy : UInt64) :
    let r := s.run entropy signals signal
    (r.2.signals.running signal = true → ∃ o, r.1 = .ok o)
      ∧ (∀ fault, r.1 = .error fault →
          fault = .terminated ∧ r.2.signals.running signal = false)
      ∧ s.tiles.flatMap NodeRange.nodes = List.range s.nodeCount := by
  intro r
  have walkable := CompressedGraph.walkable_of_made made
  have computed := delivers_compute calm walkable valid entropy _ (poised_start inside)
  have ranges : s.tiles.flatMap NodeRange.nodes = List.range s.nodeCount :=
    NodeRange.nodes_tiles s.config.concurrency.toNat _ s.config.minBatchSize.toNat
  rcases computed with ⟨o, d, run, -⟩ | ⟨fault, d, run, terminated, stopped⟩
  · have ends : r = (.ok o, d) := run
    rw [ends]
    refine ⟨fun _ => ⟨o, rfl⟩, fun fault failed => ?_, ranges⟩
    cases failed
  · have ends : r = (.error fault, d) := run
    have stopped : d.signals.running signal = false := stopped
    rw [ends]
    refine ⟨fun running => ?_, fun fault' failed => ?_, ranges⟩
    · exact absurd (stopped.symm.trans running) Bool.false_ne_true
    · cases failed
      exact ⟨terminated, stopped⟩

/-- Three nodes, all of them related, whose random candidates are walked to, one range for each. -/
def walkedNodes : Search where
  graph := GraphDraft.triangleGraph
  config := { topK := 1, maxIterations := 2, initialSampler := .randomWalk, randomJoins := 1,
              perturbationRate := 0.5, minBatchSize := 0 }
  comparison := .ofFunction closeness

theorem run_succeeds_of_three : ∃ o, (walkedNodes.run 7 (Signals.root {}).1 0).1 = .ok o := by
  have made : walkedNodes.graph.Made := .built GraphDraft.build_triangle
  have valid : walkedNodes.config.validate = .ok () := rfl
  have calm : walkedNodes.comparison.Calm walkedNodes.nodeCount
      (Signals.root {}).1.cells.size :=
    ⟨fun call a b _ _ _ => ⟨closeness a b, rfl⟩, fun call a b k _ _ _ raises => by cases raises⟩
  have alone : (walkedNodes.run 7 (Signals.root {}).1 0).2.signals.cells[0]?
      = some { raised := false, parent := none } := by decide +kernel
  have running : (walkedNodes.run 7 (Signals.root {}).1 0).2.signals.running 0 = true := by
    rw [Signals.running, alone]
    rfl
  exact (run_succeeds made valid calm (by decide) 7).1 running

end Search

end NeighborGraph
