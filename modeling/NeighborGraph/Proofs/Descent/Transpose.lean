import Mathlib.Algebra.BigOperators.Group.Finset.Sigma
import NeighborGraph.Proofs.Action.Progress
import NeighborGraph.Proofs.Descent.Join
import NeighborGraph.Proofs.Descent.Rows
import NeighborGraph.Proofs.Schedule.Tasks

/-!
# Reverse candidates

Entering every node for each of its candidates turns a map around: a node gets the nodes that have it as
a candidate, each as often as they do, in ascending order, and no entry is lost on the way
(`NodeMap.Transposes`).  It fails only if a candidate is the node itself, which the first such node is
reported for, or no node at all.

Before the node `k` is entered, the entries of a node `u` are those that it has from the nodes before `k`
(`NodeMap.sources`), and this is the invariant of the loop, for old and new candidates at once
(`Descent.Reversing`).  What earlier iterations have left in the reverse maps goes first, so it holds of
every iteration anew (`Search.ensures_iteration_mirrored`).
-/

namespace NeighborGraph

open NeighborGraph.Action

namespace NodeMap

/-! ### Turned maps -/

/-- Number of entries of all nodes. -/
def total (m : NodeMap) : Nat := ∑ v ∈ Finset.range m.size, (m.row v).length

/-- One map is the other one turned around: a node has, in ascending order, the nodes that have it as an
entry, each of them as often as they do. -/
structure Transposes (forward reverse : NodeMap) : Prop where
  size : reverse.size = forward.size
  ascending : ∀ u, (reverse.row u).Pairwise (· ≤ ·)
  count : ∀ u v, (reverse.row u).count v = (forward.row v).count u
  total : reverse.total = forward.total

/-! ### Sources -/

/-- The nodes before `k` that have `u` as an entry, in ascending order, each as often as it does. -/
def sources (forward : NodeMap) (k u : Nat) : List Nat :=
  (List.range k).flatMap fun v => List.replicate ((forward.row v).count u) v

variable {forward : NodeMap} {k u v : Nat}

theorem sources_succ (forward : NodeMap) (k u : Nat) :
    forward.sources (k + 1) u
      = forward.sources k u ++ List.replicate ((forward.row k).count u) k := by
  rw [sources, List.range_succ, List.flatMap_append, List.flatMap_singleton, sources]

theorem lt_of_mem_sources (member : v ∈ forward.sources k u) : v < k := by
  obtain ⟨w, small, copy⟩ := List.mem_flatMap.mp member
  rw [List.eq_of_mem_replicate copy]
  exact List.mem_range.mp small

theorem sources_ascending (forward : NodeMap) (k u : Nat) :
    (forward.sources k u).Pairwise (· ≤ ·) := by
  induction k with
  | zero => exact .nil
  | succ k ih =>
    rw [sources_succ]
    refine List.pairwise_append.mpr ⟨ih, List.pairwise_replicate.mpr (.inr (Nat.le_refl k)), ?_⟩
    intro v before w last
    rw [List.eq_of_mem_replicate last]
    exact Nat.le_of_lt (lt_of_mem_sources before)

theorem count_sources (forward : NodeMap) (k u v : Nat) :
    (forward.sources k u).count v = if v < k then (forward.row v).count u else 0 := by
  induction k with
  | zero => rfl
  | succ k ih =>
    rw [sources_succ, List.count_append, ih, List.count_replicate]
    rcases Nat.lt_trichotomy v k with before | rfl | after
    · simp [before, Nat.lt_succ_of_lt before, Nat.ne_of_gt before]
    · simp
    · simp [Nat.not_lt_of_lt after, Nat.not_lt.mpr after, Nat.ne_of_lt after]

theorem length_sources (forward : NodeMap) (k u : Nat) :
    (forward.sources k u).length = ∑ v ∈ Finset.range k, (forward.row v).count u := by
  induction k with
  | zero => rfl
  | succ k ih =>
    rw [sources_succ, List.length_append, ih, List.length_replicate, Finset.sum_range_succ]

/-! ### Entering nodes -/

/-- Why a node cannot be entered for others: it is one of them, or one of them is no node. -/
inductive Refused (n node : Nat) (targets : List Nat) : Fault → Prop
  | own (member : node ∈ targets) : Refused n node targets (.corruption (.selfCandidate node))
  | outside {u : Nat} (member : u ∈ targets) (outside : n ≤ u) :
      Refused n node targets (.crash (.indexOutOfRange u n))

theorem Refused.cons {n node target : Nat} {targets : List Nat} {fault : Fault}
    (h : Refused n node targets fault) : Refused n node (target :: targets) fault := by
  cases h with
  | own member => exact .own (List.mem_cons_of_mem _ member)
  | outside member outside => exact .outside (List.mem_cons_of_mem _ member) outside

/-- Entering a node for others gives each of them the node as often as it is among them, or fails. -/
theorem enter_cases (n : Nat) (rows : Nat → List Nat) (node : Nat) (targets : List Nat) :
    (enter node targets (ofRows n rows)
          = (.ok (), ofRows n fun u => rows u ++ List.replicate (targets.count u) node)
        ∧ ∀ u ∈ targets, Sampler.Other n node u)
      ∨ ∃ fault m, enter node targets (ofRows n rows) = (.error fault, m)
        ∧ Refused n node targets fault := by
  -- on the targets: each of them makes one row longer, and the others start from there
  induction targets generalizing rows with
  | nil =>
    refine .inl ⟨?_, fun u none => absurd none List.not_mem_nil⟩
    simp only [List.count_nil, List.replicate_zero, List.append_nil]
    rfl
  | cons target rest ih =>
    have size := size_ofRows n rows
    by_cases own : target = node
    · refine .inr ⟨_, ofRows n rows, forEach_cons_error ?_, .own (own ▸ List.mem_cons_self)⟩
      rw [enterFor, if_pos own]
    by_cases inside : target < n
    · have one : enterFor node target (ofRows n rows)
          = (.ok (), ofRows n fun u => if target = u then rows u ++ [node] else rows u) := by
        rw [enterFor, if_neg own, if_pos (size.symm ▸ inside), modify_ofRows]
      rcases ih fun u => if target = u then rows u ++ [node] else rows u with
        ⟨run, others⟩ | ⟨fault, m, run, because⟩
      · refine .inl ⟨(forEach_cons_ok one).trans (run.trans ?_),
          List.forall_mem_cons.mpr ⟨⟨inside, own⟩, others⟩⟩
        congr 2
        funext u
        by_cases same : target = u
        · rw [if_pos same, same, List.count_cons_self, List.append_assoc, List.singleton_append,
            ← List.replicate_succ]
        · rw [if_neg same, List.count_cons_of_ne same]
      · exact .inr ⟨fault, m, (forEach_cons_ok one).trans run, because.cons⟩
    · refine .inr ⟨_, ofRows n rows, forEach_cons_error ?_,
        .outside List.mem_cons_self (Nat.not_lt.mp inside)⟩
      rw [enterFor, if_neg own, if_neg (size.symm ▸ inside), size]

/-- Entering the node `k` for its own entries, after the nodes before it. -/
theorem enter_sources (n : Nat) (forward : NodeMap) (k : Nat) :
    (enter k (forward.row k) (ofRows n (forward.sources k))
          = (.ok (), ofRows n (forward.sources (k + 1)))
        ∧ ∀ u ∈ forward.row k, Sampler.Other n k u)
      ∨ ∃ fault m, enter k (forward.row k) (ofRows n (forward.sources k)) = (.error fault, m)
        ∧ Refused n k (forward.row k) fault := by
  have next : forward.sources (k + 1) = _ := funext (sources_succ forward k)
  rw [next]
  exact enter_cases n (forward.sources k) k (forward.row k)

/-- The sources of all nodes turn a map around, if its entries are nodes. -/
theorem transposes_sources
    (closed : ∀ v < forward.size, ∀ u ∈ forward.row v, u < forward.size) :
    Transposes forward (ofRows forward.size (forward.sources forward.size)) := by
  have size := size_ofRows forward.size (forward.sources forward.size)
  refine ⟨size, fun u => ?_, fun u v => ?_, ?_⟩
  · rw [row_ofRows]
    split
    · exact sources_ascending ..
    · exact .nil
  · rw [row_ofRows]
    split
    · rw [count_sources]
      split
      · rfl
      · next outside =>
        rw [row_eq_nil (Nat.not_lt.mp outside)]
        rfl
    · next outside =>
      refine (List.count_eq_zero.mpr fun member => outside ?_).symm
      exact closed v (lt_of_mem_row member) u member
  · -- the pairs of a node and an entry, counted by the entry and by the node
    calc (ofRows forward.size (forward.sources forward.size)).total
        = ∑ u ∈ Finset.range forward.size, (forward.sources forward.size u).length := by
          rw [total, size]
          refine Finset.sum_congr rfl fun u member => ?_
          rw [row_ofRows, if_pos (Finset.mem_range.mp member)]
      _ = ∑ u ∈ Finset.range forward.size, ∑ v ∈ Finset.range forward.size,
            (forward.row v).count u := Finset.sum_congr rfl fun u _ => length_sources ..
      _ = ∑ v ∈ Finset.range forward.size, ∑ u ∈ Finset.range forward.size,
            (forward.row v).count u := Finset.sum_comm
      _ = forward.total := by
          refine Finset.sum_congr rfl fun v node => ?_
          have inside (u : Nat) (member : u ∈ (forward.row v : Multiset Nat)) :
              u ∈ Finset.range forward.size :=
            Finset.mem_range.mpr (closed v (Finset.mem_range.mp node) u (Multiset.mem_coe.mp member))
          simpa using Multiset.sum_count_eq_card inside

end NodeMap

namespace Descent

/-! ### One node after the other -/

/-- A node is among its own candidates. -/
def ListsItself (d : Descent) (v : Nat) : Prop := v ∈ d.old.row v ∨ v ∈ d.new.row v

/-- The descent but for reverse candidates and reports. -/
def forward (d : Descent) : Descent := { d with reverseOld := #[], reverseNew := #[], events := #[] }

/-- The nodes before `i` have been entered for their old candidates and those before `j` for their new
ones, and all of these candidates are other nodes. -/
structure Reversing (n : Nat) (before : Descent) (i j : Nat) (d : Descent) : Prop where
  forward : d.forward = before.forward
  old : d.reverseOld = .ofRows n (before.old.sources i)
  new : d.reverseNew = .ofRows n (before.new.sources j)
  oldOthers : ∀ v < i, ∀ u ∈ before.old.row v, Sampler.Other n v u
  newOthers : ∀ v < j, ∀ u ∈ before.new.row v, Sampler.Other n v u

/-- Why nodes cannot be entered: the signal does not run, a node lists itself, or a candidate is no node.
The node that is named is the first one. -/
inductive Hindered (n signal : Nat) (before : Descent) : Fault → Prop
  | stopped (stopped : before.signals.running signal = false) : Hindered n signal before .terminated
  | own {v : Nat} (own : before.ListsItself v) (first : ∀ w < v, ¬before.ListsItself w) :
      Hindered n signal before (.corruption (.selfCandidate v))
  | outside {v u : Nat} (candidate : u ∈ before.old.row v ∨ u ∈ before.new.row v)
      (outside : n ≤ u) : Hindered n signal before (.crash (.indexOutOfRange u n))

variable {n signal i j k : Nat} {before d : Descent}

theorem Reversing.old_eq (h : Reversing n before i j d) : d.old = before.old := by
  have same : d.forward.old = before.forward.old := congrArg (·.old) h.forward
  exact same

theorem Reversing.new_eq (h : Reversing n before i j d) : d.new = before.new := by
  have same : d.forward.new = before.forward.new := congrArg (·.new) h.forward
  exact same

theorem Reversing.signals_eq (h : Reversing n before i j d) : d.signals = before.signals := by
  have same : d.forward.signals = before.forward.signals := congrArg (·.signals) h.forward
  exact same

theorem Reversing.not_listsItself (h : Reversing n before i j d) {v : Nat} (old : v < i)
    (new : v < j) : ¬before.ListsItself v := by
  rintro (own | own)
  · exact (h.oldOthers v old v own).2 rfl
  · exact (h.newOthers v new v own).2 rfl

/-- Entering the next node, in either of the reverse maps. -/
theorem delivers_enterRow {P Q : Descent → Prop} {forward : NodeMap}
    {take : Descent → NodeMap × Descent} {put : NodeMap → Descent → Descent}
    (taken : ∀ d, P d → (take d).1 = .ofRows n (forward.sources k))
    (entered : ∀ d, P d → (∀ u ∈ forward.row k, Sampler.Other n k u) →
      Q (put (.ofRows n (forward.sources (k + 1))) (take d).2))
    (refused : ∀ d, P d → ∀ fault, NodeMap.Refused n k (forward.row k) fault →
      Hindered n signal before fault) :
    (overMap take put (NodeMap.enter k (forward.row k))).Delivers P (fun _ => Q)
      fun fault _ => Hindered n signal before fault := by
  intro d h
  rcases NodeMap.enter_sources n forward k with ⟨run, others⟩ | ⟨fault, m, run, because⟩
  · exact .inl ⟨(), _, overMap_eq (taken d h) run, entered d h others⟩
  · exact .inr ⟨fault, _, overMap_eq (taken d h) run, refused d h fault because⟩

theorem delivers_enterOld :
    (overMap takeReverseOld (fun reverseOld d => { d with reverseOld })
        (NodeMap.enter k (before.old.row k))).Delivers (Reversing n before k k)
      (fun _ => Reversing n before (k + 1) k) fun fault _ => Hindered n signal before fault := by
  refine delivers_enterRow (fun d h => h.old) (fun d h others => ?_) fun d h fault because => ?_
  · exact ⟨h.forward, rfl, h.new, Nat.forall_lt_succ_right.mpr ⟨h.oldOthers, others⟩, h.newOthers⟩
  · cases because with
    | own member => exact .own (.inl member) fun w earlier => h.not_listsItself earlier earlier
    | outside member outside => exact .outside (.inl member) outside

theorem delivers_enterNew :
    (overMap takeReverseNew (fun reverseNew d => { d with reverseNew })
        (NodeMap.enter k (before.new.row k))).Delivers (Reversing n before (k + 1) k)
      (fun _ => Reversing n before (k + 1) (k + 1)) fun fault _ =>
        Hindered n signal before fault := by
  refine delivers_enterRow (fun d h => h.new) (fun d h others => ?_) fun d h fault because => ?_
  · exact ⟨h.forward, h.old, rfl, h.oldOthers, Nat.forall_lt_succ_right.mpr ⟨h.newOthers, others⟩⟩
  · cases because with
    | own member =>
      refine .own (.inr member) fun w earlier => ?_
      exact h.not_listsItself (Nat.lt_succ_of_lt earlier) earlier
    | outside member outside => exact .outside (.inr member) outside

theorem delivers_reverseNode (old : before.old.size = n) (new : before.new.size = n)
    (inside : k < n) :
    (reverseNode k).Delivers (Reversing n before k k) (fun _ => Reversing n before (k + 1) (k + 1))
      fun fault _ => Hindered n signal before fault := by
  refine delivers_bind (R := fun r d => Reversing n before k k d ∧ r = .ok (before.old.row k))
    (delivers_read fun d h => ⟨h, ?_⟩) fun entries => delivers_of_fact fun found => ?_
  · rw [h.old_eq]
    exact NodeMap.entries_eq (old.symm ▸ inside)
  rw [found, check_ok_bind]
  -- in between, the node is entered for its old candidates and not yet for its new ones
  refine delivers_bind delivers_enterOld fun _ => ?_
  refine delivers_bind (R := fun r d => Reversing n before (k + 1) k d ∧ r = .ok (before.new.row k))
    (delivers_read fun d h => ⟨h, ?_⟩) fun entries => delivers_of_fact fun found => ?_
  · rw [h.new_eq]
    exact NodeMap.entries_eq (new.symm ▸ inside)
  rw [found, check_ok_bind]
  exact delivers_enterNew

/-- Looking at a signal is passed or fails because the signal does not run. -/
theorem delivers_look (processed : Nat) :
    (Tasks.poll signal processed : Action Descent Unit).Delivers (Reversing n before i j)
      (fun _ => Reversing n before i j) fun fault _ => Hindered n signal before fault := by
  intro d h
  rcases d.signals.poll_cases signal processed with passed | ⟨failed, stopped⟩
  · exact .inl ⟨(), d, Prod.ext passed rfl, h⟩
  · exact .inr ⟨.terminated, d, Prod.ext failed rfl, .stopped (h.signals_eq ▸ stopped)⟩

theorem delivers_reverseMaps (old : before.old.size = n) (new : before.new.size = n)
    (batch : Nat) :
    (reverseMaps n batch signal).Delivers (Reversing n before 0 0) (fun _ => Reversing n before n n)
      fun fault _ => Hindered n signal before fault := by
  let progress (k : Nat) : Descent → Prop := Reversing n before k k
  have loop : (reverseMaps n batch signal).Delivers (progress 0) (fun _ => progress (0 + n))
      fun fault _ => Hindered n signal before fault := by
    rw [reverseMaps, List.range_eq_range']
    refine delivers_forEach_range' n fun k _ inside => ?_
    rw [Nat.zero_add] at inside
    refine delivers_bind (delivers_look k) fun _ => ?_
    refine delivers_bind (delivers_reverseNode old new inside) fun _ => ?_
    refine delivers_ite (fun _ => delivers_update fun d h => ?_) fun _ => delivers_pure fun _ h => h
    exact ⟨h.forward, h.old, h.new, h.oldOthers, h.newOthers⟩
  rw [Nat.zero_add] at loop
  exact loop

/-! ### Whole maps -/

/-- What comes of entering all nodes.  It fails with a corruption if and only if a node lists itself, and
the first such node is named.  Otherwise it succeeds, and the reverse maps are the maps turned around; all
else is as before, but for reports. -/
structure Reverses (before : Descent) (r : Checked Unit × Descent) : Prop where
  corrupt : (∃ cause, r.1 = .error (.corruption cause)) ↔ ∃ v, before.ListsItself v
  named : ∀ fault, r.1 = .error fault → ∃ v, fault = .corruption (.selfCandidate v)
    ∧ before.ListsItself v ∧ ∀ w < v, ¬before.ListsItself w
  turned : (∀ v, ¬before.ListsItself v) → r.1 = .ok () ∧ r.2.forward = before.forward
    ∧ before.old.Transposes r.2.reverseOld ∧ before.new.Transposes r.2.reverseNew

/-- The candidates of `n` nodes are nodes, there are reverse maps of the right length, whatever is in them,
and the signal runs. -/
structure Ready (n signal : Nat) (d : Descent) : Prop where
  old : d.old.size = n
  new : d.new.size = n
  reverseOld : d.reverseOld.size = n
  reverseNew : d.reverseNew.size = n
  oldNodes : ∀ v < n, ∀ u ∈ d.old.row v, u < n
  newNodes : ∀ v < n, ∀ u ∈ d.new.row v, u < n
  runs : d.signals.running signal = true

theorem Ready.lt_of_candidate (ready : Ready n signal d) {v u : Nat}
    (candidate : u ∈ d.old.row v ∨ u ∈ d.new.row v) : v < n ∧ u < n := by
  rcases candidate with member | member
  · have inside : v < n := ready.old ▸ NodeMap.lt_of_mem_row member
    exact ⟨inside, ready.oldNodes v inside u member⟩
  · have inside : v < n := ready.new ▸ NodeMap.lt_of_mem_row member
    exact ⟨inside, ready.newNodes v inside u member⟩

theorem reversing_start (old : d.reverseOld = .empty n) (new : d.reverseNew = .empty n) :
    Reversing n d 0 0 d := by
  refine ⟨rfl, old.trans (NodeMap.empty_eq_ofRows n), new.trans (NodeMap.empty_eq_ofRows n), ?_, ?_⟩
  · exact fun v none => absurd none (Nat.not_lt_zero v)
  · exact fun v none => absurd none (Nat.not_lt_zero v)

theorem Reversing.transposes (h : Reversing n before n n d) (old : before.old.size = n)
    (new : before.new.size = n) :
    before.old.Transposes d.reverseOld ∧ before.new.Transposes d.reverseNew := by
  constructor
  · rw [h.old, ← old]
    exact NodeMap.transposes_sources fun v inside u member =>
      old.symm ▸ (h.oldOthers v (old ▸ inside) u member).1
  · rw [h.new, ← new]
    exact NodeMap.transposes_sources fun v inside u member =>
      new.symm ▸ (h.newOthers v (new ▸ inside) u member).1

theorem reverses_of_empty (ready : Ready n signal d) (old : d.reverseOld = .empty n)
    (new : d.reverseNew = .empty n) (batch : Nat) :
    Reverses d (reverseMaps n batch signal d) := by
  rcases delivers_reverseMaps ready.old ready.new batch d (reversing_start old new) with
    ⟨_, d', run, h⟩ | ⟨fault, d', run, because⟩
  · have clean (v : Nat) (own : d.ListsItself v) : False := by
      have inside := (ready.lt_of_candidate own).1
      exact h.not_listsItself inside inside own
    rw [run]
    refine ⟨⟨fun ⟨cause, failed⟩ => ?_, fun ⟨v, own⟩ => (clean v own).elim⟩,
      fun fault failed => ?_, fun _ => ⟨rfl, h.forward, h.transposes ready.old ready.new⟩⟩
    · cases failed
    · cases failed
  · rw [run]
    cases because with
    | stopped stopped => exact absurd (ready.runs.symm.trans stopped) Bool.noConfusion
    | @own v own first =>
      refine ⟨⟨fun _ => ⟨v, own⟩, fun _ => ⟨_, rfl⟩⟩, fun fault failed => ?_,
        fun clean => absurd own (clean v)⟩
      cases failed
      exact ⟨v, rfl, own, first⟩
    | outside candidate outside =>
      exact absurd (ready.lt_of_candidate candidate).2 (Nat.not_lt.mpr outside)

/-- What is left of an earlier iteration goes first. -/
theorem reverses_of_ready (ready : Ready n signal d) (batch : Nat) :
    Reverses d ((clearReverse >>= fun _ => reverseMaps n batch signal) d) := by
  let cleared : Descent :=
    { d with reverseOld := .empty d.reverseOld.size, reverseNew := .empty d.reverseNew.size }
  have size (m : Nat) : (NodeMap.empty m).size = m := Array.size_replicate
  have still : Ready n signal cleared := { ready with
    reverseOld := (size _).trans ready.reverseOld
    reverseNew := (size _).trans ready.reverseNew }
  have h := reverses_of_empty still (congrArg NodeMap.empty ready.reverseOld)
    (congrArg NodeMap.empty ready.reverseNew) batch
  exact ⟨h.corrupt, h.named, h.turned⟩

/-! ### Iterations -/

/-- Lengths of the maps. -/
structure Sizes where
  old : Nat
  new : Nat
  reverseOld : Nat
  reverseNew : Nat

/-- Maps of `n` nodes. -/
def Sizes.all (n : Nat) : Sizes := ⟨n, n, n, n⟩

/-- Lengths of the candidate maps. -/
def sizes (d : Descent) : Sizes where
  old := d.old.size
  new := d.new.size
  reverseOld := d.reverseOld.size
  reverseNew := d.reverseNew.size

theorem aside_sizes : Aside sizes := ⟨fun _ _ => rfl, fun _ _ => rfl, fun _ _ => rfl, fun _ _ => rfl,
  fun _ _ => rfl⟩

theorem sizes_keepParts (d : Descent) (node : Nat) (places : Nat × Nat)
    (parts : NeighborList.Parts) : (keepParts node places parts d).sizes = d.sizes := by
  simp only [sizes, keepParts, Array.size_setIfInBounds]

/-- The reverse maps are the maps turned around. -/
structure Maps.Mirrored (n : Nat) (m : Maps) : Prop where
  size : m.old.size = n ∧ m.new.size = n
  old : m.old.Transposes m.reverseOld
  new : m.new.Transposes m.reverseNew

theorem Maps.Mirrored.sizes_eq (h : d.maps.Mirrored n) : d.sizes = .all n := by
  have old : d.old.size = n := h.size.1
  have new : d.new.size = n := h.size.2
  have reverseOld : d.reverseOld.size = n := h.old.size.trans old
  have reverseNew : d.reverseNew.size = n := h.new.size.trans new
  rw [sizes, old, new, reverseOld, reverseNew, Sizes.all]

theorem ensures_reverse_mirrored (n batch signal : Nat) :
    (clearReverse >>= fun _ => reverseMaps n batch signal).Ensures (fun d => d.sizes = .all n)
      fun _ d => d.maps.Mirrored n := by
  refine ensures_bind (R := fun _ d => d.old.size = n ∧ d.new.size = n ∧ Reversing n d 0 0 d)
    (ensures_update fun d sized => ?_) fun _ d u d' ⟨old, new, start⟩ run => ?_
  · refine ⟨congrArg Sizes.old sized, congrArg Sizes.new sized, reversing_start ?_ ?_⟩
    · exact congrArg (fun s => NodeMap.empty s.reverseOld) sized
    · exact congrArg (fun s => NodeMap.empty s.reverseNew) sized
  · rcases delivers_reverseMaps old new batch d start with ⟨_, d'', run', h⟩ | ⟨fault, d'', run', _⟩
    · cases run.symm.trans run'
      have turned := h.transposes old new
      rw [← h.old_eq, ← h.new_eq] at turned
      exact ⟨⟨(congrArg Array.size h.old_eq).trans old, (congrArg Array.size h.new_eq).trans new⟩,
        turned.1, turned.2⟩
    · cases run.symm.trans run'

end Descent

namespace Search

open Descent

variable {s : Search} {n : Nat}

/-- An iteration turns the candidates around that it has just found, and joins change none of them. -/
theorem ensures_iteration_mirrored (size : s.nodeCount = n) (signal : Nat) :
    (s.iteration signal).Ensures (fun d => d.sizes = .all n) fun _ d => d.maps.Mirrored n := by
  have splits : Leaves sizes (phase "Split old and new neighbors"
      (splitTiles s.tiles (s.config.sampleSize s.nodeCount) signal)) :=
    leaves_phase aside_sizes (leaves_splitTiles aside_sizes sizes_keepParts _ _ signal)
  have joins : Leaves maps (phase "Join neighbors" (do
      Action.update fun d => { d with updates := 0, pairs := 0 }
      overTiles s.tiles signal (joinLists s.joinRule))) :=
    leaves_phase apart_maps.toAside (leaves_bind (leaves_update fun _ => rfl) fun _ =>
      leaves_overTiles apart_maps.toAside fun signal p =>
        leaves_overNodes apart_maps.toAside fun node _ => leaves_joinNode_maps s.joinRule node)
  refine ensures_bind (splits.keeps (· = .all n)) fun _ => ?_
  refine ensures_bind (R := fun _ d => d.maps.Mirrored n) ?_ fun _ => joins.keeps (Maps.Mirrored n)
  subst size
  refine ensures_bind ((leaves_report aside_sizes _).keeps (· = .all _)) fun _ => ?_
  refine ensures_bind (ensures_reverse_mirrored _ _ _) fun _ => ?_
  refine ensures_bind ((leaves_report apart_maps.toAside _).keeps (Maps.Mirrored _)) fun _ => ?_
  exact ensures_pure fun _ mirrored => mirrored

/-- However many iterations there are, each of them starts anew. -/
theorem ensures_iterate_mirrored (size : s.nodeCount = n) (signal more : Nat) (rounds : Rounds) :
    (s.iterate signal more rounds).Ensures (fun d => d.maps.Mirrored n) fun _ d =>
      d.maps.Mirrored n := by
  induction more generalizing rounds with
  | zero => exact ensures_pure fun _ mirrored => mirrored
  | succ more ih =>
    have aside := apart_maps.toAside
    have turned := (ensures_iteration_mirrored size signal).mono
      (fun d mirrored => Maps.Mirrored.sizes_eq mirrored) fun _ _ mirrored => mirrored
    refine ensures_bind turned fun _ => ?_
    refine ensures_bind ((leaves_read _).keeps (Maps.Mirrored n)) fun updates => ?_
    refine ensures_bind ((leaves_read _).keeps (Maps.Mirrored n)) fun pairs => ?_
    refine ensures_bind (R := fun _ d => d.maps.Mirrored n)
      (ensures_update fun _ mirrored => mirrored) fun _ => ?_
    refine ensures_bind ((leaves_note aside _ _).keeps (Maps.Mirrored n)) fun _ => ?_
    exact ensures_ite (fun _ => ensures_pure fun _ mirrored => mirrored) fun _ => ih _

end Search

namespace Descent

variable {n signal : Nat} {d : Descent}

/-- Entering all nodes for their old and new candidates turns both maps around, unless a node lists itself,
and then it fails with a corruption.  This is so with empty reverse maps; with any reverse maps of the
right length, once they are cleared; and hence in every iteration of a run, whatever the one before it
left, for an iteration keeps the lengths of all maps. -/
theorem reverse_transposes (ready : Ready n signal d) (concurrency minBatch : Nat) :
    let batch := NodeRange.batchSize n concurrency minBatch
    (d.reverseOld = .empty n → d.reverseNew = .empty n → Reverses d (reverseMaps n batch signal d))
      ∧ Reverses d ((clearReverse >>= fun _ => reverseMaps n batch signal) d)
      ∧ ∀ s : Search, s.nodeCount = n → (s.iteration signal).Ensures (fun d => d.sizes = .all n)
          fun _ d => d.sizes = .all n ∧ d.maps.Mirrored n := by
  intro batch
  refine ⟨fun old new => reverses_of_empty ready old new batch, reverses_of_ready ready batch,
    fun s size => (Search.ensures_iteration_mirrored size signal).mono (fun _ start => start) ?_⟩
  exact fun _ d mirrored => ⟨mirrored.sizes_eq, mirrored⟩

/-- Three nodes with old and new candidates, and reverse candidates of an earlier iteration. -/
def threeNodes : Descent where
  signals := {}
  lists := #[]
  old := #[#[1, 2], #[], #[0]]
  new := #[#[], #[2], #[1]]
  reverseOld := #[#[1], #[], #[0, 1]]
  reverseNew := #[#[2], #[0], #[]]

theorem ready_threeNodes : Ready 3 0 threeNodes := by
  refine ⟨rfl, rfl, rfl, rfl, by decide, by decide, ?_⟩
  rw [Signals.running]
  rfl

/-- The same with a second node that is its own candidate. -/
def ownCandidate : Descent := { threeNodes with new := #[#[], #[1], #[1]] }

theorem reverse_transposes_of_three :
    (Ready 3 0 threeNodes ∧ (∀ v, ¬threeNodes.ListsItself v)
        ∧ ∃ d, (clearReverse >>= fun _ => reverseMaps 3 2 0) threeNodes = (.ok (), d)
          ∧ threeNodes.old.Transposes d.reverseOld ∧ threeNodes.new.Transposes d.reverseNew)
      ∧ Ready 3 0 ownCandidate ∧ ownCandidate.ListsItself 1
        ∧ ∃ cause d, (clearReverse >>= fun _ => reverseMaps 3 2 0) ownCandidate
          = (.error (.corruption cause), d) := by
  have ready := ready_threeNodes
  have clean (v : Nat) (own : threeNodes.ListsItself v) : False := by
    have inside := (ready.lt_of_candidate own).1
    have none : ∀ v < 3, ¬(v ∈ threeNodes.old.row v ∨ v ∈ threeNodes.new.row v) := by decide
    exact none v inside own
  obtain ⟨succeeds, -, old, new⟩ := (reverse_transposes ready 2 1).2.1.turned clean
  have readyOwn : Ready 3 0 ownCandidate :=
    ⟨rfl, rfl, rfl, rfl, by decide, by decide, ready.runs⟩
  have own : ownCandidate.ListsItself 1 := .inr (by decide)
  obtain ⟨cause, fails⟩ := (reverse_transposes readyOwn 2 1).2.1.corrupt.mpr ⟨1, own⟩
  exact ⟨⟨ready, clean, _, Prod.ext succeeds rfl, old, new⟩, readyOwn, own, cause, _,
    Prod.ext fails rfl⟩

end Descent

end NeighborGraph
