import NeighborGraph.Proofs.NeighborList.Split

/-!
# Lists through any operations

Offers, splits and cuts come in any order.  A list stays in order through all of them
(`NeighborList.valid_perform`), and because it is in order, each of them is a simple change: the
neighbors before a newcomer are the front of the list and those behind it are the rest
(`NeighborList.add_enters`), so no neighbor that was in some place is followed there by a worse one
(`NeighborList.improves_add`), and the neighbors that pass a cutoff are a front of the list
(`NeighborList.filter_eq_takeWhile`).
-/

namespace NeighborGraph

open NeighborGraph.Action

/-- A neighbor is more similar than another one, or it is as similar and has the smaller number. -/
def Neighbor.Better (x y : Neighbor) : Prop :=
  y.similarity < x.similarity ∨ ((x.similarity == y.similarity) = true ∧ x.id < y.id)

namespace NeighborList

/-! ### Newcomers -/

/-- A newcomer stands between those that precede it and those that do not. -/
theorem place_between {x : Neighbor} {front back : List Neighbor}
    (ahead : ∀ y ∈ front, y.precedes x = true) (behind : ∀ y ∈ back, ¬y.precedes x = true) :
    place x (front ++ back) = front ++ x :: back := by
  induction front with
  | nil =>
    cases back with
    | nil => rfl
    | cons y rest => exact if_neg (behind y List.mem_cons_self)
  | cons y rest ih =>
    rw [List.cons_append, place, if_pos (ahead y List.mem_cons_self),
      ih fun z member => ahead z (List.mem_cons_of_mem _ member)]
    rfl

/-- In a list in order those that precede a newcomer are the front. -/
theorem exists_front {x : Neighbor} {entries : List Neighbor} (number : x.IsNumber)
    (numbers : ∀ y ∈ entries, y.IsNumber)
    (ordered : entries.Pairwise fun y z => y.precedes z = true)
    (new : ∀ y ∈ entries, y.id ≠ x.id) :
    ∃ front back, entries = front ++ back ∧ (∀ y ∈ front, y.precedes x = true)
      ∧ ∀ y ∈ back, ¬y.precedes x = true ∧ x.precedes y = true := by
  induction entries with
  | nil => exact ⟨[], [], rfl, List.forall_mem_nil _, List.forall_mem_nil _⟩
  | cons y rest ih =>
    obtain ⟨numberY, numbers⟩ := List.forall_mem_cons.mp numbers
    obtain ⟨first, ordered⟩ := List.pairwise_cons.mp ordered
    obtain ⟨newY, new⟩ := List.forall_mem_cons.mp new
    by_cases ahead : y.precedes x = true
    · obtain ⟨front, back, rfl, before, after⟩ := ih numbers ordered new
      exact ⟨y :: front, back, rfl, List.forall_mem_cons.mpr ⟨ahead, before⟩, after⟩
    · -- the newcomer precedes the first one that does not precede it, and so all behind that
      have behind := Neighbor.precedes_of_not numberY number newY ahead
      refine ⟨[], y :: rest, rfl, List.forall_mem_nil _,
        List.forall_mem_cons.mpr ⟨⟨ahead, behind⟩, fun z member => ⟨fun back => ahead ?_, ?_⟩⟩⟩
      · exact Neighbor.precedes_trans numberY (numbers z member) number (first z member) back
      · exact Neighbor.precedes_trans number numberY (numbers z member) behind (first z member)

/-- What stands behind a newcomer in the end: all of it as long as there is room, and otherwise all but
the last one. -/
def keptBehind (l : NeighborList) (back : List Neighbor) : List Neighbor :=
  if l.entries.length < l.capacity then back else back.dropLast

/-- An offer leaves a list as it is, or the candidate enters it behind all that precede it. -/
theorem add_enters {l : NeighborList} {owner : Nat} (valid : l.Valid owner) (candidate : Nat)
    (similarity : Float) :
    l.add owner candidate similarity = (false, l)
      ∨ ∃ x front back, x = { id := candidate, similarity : Neighbor } ∧ x.IsNumber ∧ x.id ∉ l.ids
          ∧ l.entries = front ++ back
          ∧ (∀ y ∈ front, y.precedes x = true) ∧ (∀ y ∈ back, x.precedes y = true)
          ∧ (¬l.entries.length < l.capacity → back ≠ [])
          ∧ l.add owner candidate similarity
            = (true, { l with entries := front ++ x :: l.keptBehind back }) := by
  by_cases refused : l.refuses owner candidate similarity = true
  · exact .inl (if_pos refused)
  · obtain ⟨-, -, number, new⟩ := of_not_refuses refused
    generalize entrant : ({ id := candidate, similarity } : Neighbor) = x
    have number : x.IsNumber := entrant ▸ number
    have new : x.id ∉ l.ids := entrant ▸ new
    have others : ∀ y ∈ l.entries, y.id ≠ x.id := fun y member same =>
      new (same ▸ List.mem_map_of_mem member)
    obtain ⟨front, back, split, ahead, behind⟩ :=
      exists_front number valid.numbers valid.ordered others
    rw [add, if_neg refused, entrant]
    by_cases room : l.entries.length < l.capacity
    · refine .inr ⟨x, front, back, rfl, number, new, split, ahead, fun y member =>
        (behind y member).2, fun full => absurd room full, ?_⟩
      rw [if_pos room, keptBehind, if_pos room, split,
        place_between ahead fun y member => (behind y member).1]
    · by_cases late : l.entries.all (·.precedes x) = true
      · exact .inl (by rw [if_neg room, if_pos late])
      · have some : back ≠ [] := by
          rintro rfl
          rw [List.append_nil] at split
          exact late (List.all_eq_true.mpr (split ▸ ahead))
        refine .inr ⟨x, front, back, rfl, number, new, split, ahead, fun y member =>
          (behind y member).2, fun _ => some, ?_⟩
        rw [if_neg room, if_neg late, keptBehind, if_neg room, split,
          List.dropLast_append_of_ne_nil some, place_between ahead fun y member =>
            (behind y ((List.dropLast_sublist _).subset member)).1]

/-- Where a newcomer stands, and where others move one place back, nothing gets worse. -/
theorem getElem?_enters {x : Neighbor} {front back kept : List Neighbor}
    (ordered : back.Pairwise fun y z => y.precedes z = true)
    (behind : ∀ y ∈ back, x.precedes y = true) (part : kept <+: back)
    (most : back.length ≤ kept.length + 1) {i : Nat} {y : Neighbor}
    (there : (front ++ back)[i]? = some y) :
    ∃ z, (front ++ x :: kept)[i]? = some z ∧ (z = y ∨ z.precedes y = true) := by
  by_cases ahead : i < front.length
  · rw [List.getElem?_append_left ahead] at there ⊢
    exact ⟨y, there, .inl rfl⟩
  · have after : front.length ≤ i := Nat.not_lt.mp ahead
    rw [List.getElem?_append_right after] at there ⊢
    generalize i - front.length = j at there ⊢
    cases j with
    | zero => exact ⟨x, rfl, .inr (behind y (List.mem_of_getElem? there))⟩
    | succ j =>
      obtain ⟨inside, rfl⟩ := List.getElem?_eq_some_iff.mp there
      have moved : j < kept.length := by omega
      refine ⟨kept[j], ?_, .inr ?_⟩
      · rw [List.getElem?_cons_succ, List.getElem?_eq_getElem moved]
      · rw [part.getElem moved]
        exact List.pairwise_iff_getElem.mp ordered j (j + 1) _ inside (Nat.lt_succ_self j)

/-- What an offer does to a list: whether it changed is told, it holds no fewer neighbors than before,
and none of its places is taken by a worse one.  A newcomer stands behind all better neighbors and before
all worse ones, the last of which leaves a full list. -/
structure Improves (l : NeighborList) (owner candidate : Nat) (similarity : Float) : Prop where
  told : (l.add owner candidate similarity).1 = true
    ↔ (l.add owner candidate similarity).2.entries ≠ l.entries
  length_le : l.entries.length ≤ (l.add owner candidate similarity).2.entries.length
  better : ∀ (i : Nat) y, l.entries[i]? = some y →
    ∃ z, (l.add owner candidate similarity).2.entries[i]? = some z ∧ (z = y ∨ z.Better y)
  enters : (l.add owner candidate similarity).1 = true →
    ∃ x front back, x = { id := candidate, similarity : Neighbor } ∧ l.entries = front ++ back
      ∧ (∀ y ∈ front, y.Better x) ∧ (∀ y ∈ back, x.Better y)
      ∧ (l.add owner candidate similarity).2.entries = front ++ x :: l.keptBehind back

theorem improves_add {l : NeighborList} {owner : Nat} (valid : l.Valid owner) (candidate : Nat)
    (similarity : Float) : l.Improves owner candidate similarity := by
  rcases add_enters valid candidate similarity with
    same | ⟨x, front, back, entrant, number, new, split, ahead, behind, some, entered⟩
  · constructor
    · rw [same]
      exact ⟨fun changed => Bool.noConfusion changed, fun changed => absurd rfl changed⟩
    · rw [same]
    · rw [same]
      exact fun i y there => ⟨y, there, .inl rfl⟩
    · rw [same]
      exact fun changed => Bool.noConfusion changed
  · have numbers : ∀ y ∈ front ++ back, y.IsNumber := split ▸ valid.numbers
    have ordered : (front ++ back).Pairwise fun y z => y.precedes z = true := split ▸ valid.ordered
    have part : l.keptBehind back <+: back := by
      rw [keptBehind]
      split
      · exact List.prefix_refl back
      · exact List.dropLast_prefix back
    have most : back.length ≤ (l.keptBehind back).length + 1 := by
      rw [keptBehind]
      split
      · omega
      · rw [List.length_dropLast]
        omega
    have numbersKept : ∀ z ∈ front ++ x :: l.keptBehind back, z.IsNumber := by
      intro z member
      rcases List.mem_append.mp member with inFront | member
      · exact numbers z (List.mem_append_left _ inFront)
      · rcases List.mem_cons.mp member with rfl | inBack
        · exact number
        · exact numbers z (List.mem_append_right _ (part.subset inBack))
    have better {y z : Neighbor} (hy : y.IsNumber) (hz : z.IsNumber) (h : y.precedes z = true) :
        y.Better z := (Neighbor.precedes_iff_better hy hz).mp h
    constructor
    · rw [entered]
      refine ⟨fun _ same => new ?_, fun _ => rfl⟩
      have member : x ∈ l.entries := same ▸ List.mem_append_right _ List.mem_cons_self
      exact List.mem_map_of_mem member
    · rw [entered, split]
      simp only [List.length_append, List.length_cons]
      omega
    · intro i y there
      rw [split] at there
      have backOrdered := (List.pairwise_append.mp ordered).2.1
      obtain ⟨z, found, same | before⟩ := getElem?_enters backOrdered behind part most there
      · exact ⟨z, entered ▸ found, .inl same⟩
      · refine ⟨z, entered ▸ found, .inr (better ?_ ?_ before)⟩
        · exact numbersKept z (List.mem_of_getElem? found)
        · exact numbers y (List.mem_of_getElem? there)
    · refine fun _ => ⟨x, front, back, entrant, split, ?_, ?_, entered ▸ rfl⟩
      · exact fun y member => better (numbers y (List.mem_append_left _ member)) number (ahead y member)
      · exact fun y member =>
          better number (numbers y (List.mem_append_right _ member)) (behind y member)

/-! ### Cuts -/

/-- In a list in order, those that pass a cutoff are a front of it. -/
theorem filter_eq_takeWhile {l : NeighborList} {owner : Nat} (valid : l.Valid owner) (cutoff : Float) :
    (l.filter cutoff).entries = l.entries.takeWhile fun x => decide (cutoff ≤ x.similarity) := by
  have numbers := valid.numbers
  have ordered := valid.ordered
  show l.entries.filter _ = _
  generalize l.entries = entries at numbers ordered
  induction entries with
  | nil => rfl
  | cons x rest ih =>
    obtain ⟨number, numbers⟩ := List.forall_mem_cons.mp numbers
    obtain ⟨first, ordered⟩ := List.pairwise_cons.mp ordered
    by_cases passes : cutoff ≤ x.similarity
    · rw [List.filter_cons, List.takeWhile_cons, if_pos (decide_eq_true passes),
        if_pos (decide_eq_true passes), ih numbers ordered]
    · rw [List.filter_cons, List.takeWhile_cons, if_neg (by simpa using passes),
        if_neg (by simpa using passes), List.filter_eq_nil_iff]
      intro y member pass
      -- what passes would be at most as similar as the first one, which does not pass
      refine passes (NumberLine.le_of_le_of_not_lt (numbers y member) number
        (of_decide_eq_true pass) fun more => ?_)
      rcases (Neighbor.precedes_iff_better number (numbers y member)).mp (first y member) with
        less | ⟨same, -⟩
      · rw [NumberLine.lt_iff_place number (numbers y member)] at more
        rw [NumberLine.lt_iff_place (numbers y member) number] at less
        exact lt_asymm less more
      · rw [NumberLine.lt_iff_place number (numbers y member)] at more
        rw [NumberLine.beq_iff_place number (numbers y member)] at same
        exact absurd same (ne_of_lt more)

/-! ### One operation after another -/

/-- An operation on a list. -/
inductive Operation
  | offer (candidate : Nat) (similarity : Float)
  | split (sampleSize : Nat)
  | cutOff (cutoff : Float)

/-- The list of `owner` after an operation. -/
def perform (owner : Nat) (l : NeighborList) : Operation → Random.Draw NeighborList
  | .offer candidate similarity => return (l.add owner candidate similarity).2
  | .split sampleSize => do return (← l.split sampleSize).list
  | .cutOff cutoff => return l.filter cutoff

/-- The list of `owner` after operations, the first of which comes first. -/
def performAll (owner : Nat) : NeighborList → List Operation → Random.Draw NeighborList
  | l, [] => return l
  | l, operation :: rest => do performAll owner (← perform owner l operation) rest

variable {owner : Nat} {l : NeighborList}

/-- Every operation succeeds. -/
theorem perform_total (owner : Nat) (l : NeighborList) (operation : Operation) :
    (perform owner l operation).Total := by
  cases operation with
  | offer candidate similarity => exact total_pure _
  | split sampleSize => exact total_then (split_total l sampleSize) fun parts => total_pure _
  | cutOff cutoff => exact total_pure _

/-- Every operation leaves a list in order, and as large as it may be. -/
theorem valid_perform (valid : l.Valid owner) (operation : Operation) :
    (perform owner l operation).Yields fun l' => l'.Valid owner ∧ l'.capacity = l.capacity := by
  cases operation with
  | offer candidate similarity =>
    exact yields_pure ⟨valid_add valid candidate similarity, capacity_add l owner candidate similarity⟩
  | split sampleSize =>
    have marks : (l.split sampleSize).Yields fun parts => ∃ picked, parts.list = l.check picked :=
      yields_bind (yields_any _) fun new _ => yields_pure ⟨new, rfl⟩
    refine yields_bind marks fun parts ⟨picked, marked⟩ => yields_pure ?_
    rw [marked]
    exact ⟨valid_check valid picked, rfl⟩
  | cutOff cutoff => exact yields_pure ⟨valid_filter valid cutoff, rfl⟩

theorem performAll_delivers (valid : l.Valid owner) (operations : List Operation)
    (stream : Random.Stream) :
    ∃ l' stream', performAll owner l operations stream = (.ok l', stream')
      ∧ l'.Valid owner ∧ l'.capacity = l.capacity := by
  induction operations generalizing l stream with
  | nil => exact ⟨l, stream, rfl, valid, rfl⟩
  | cons operation rest ih =>
    rcases perform_total owner l operation stream trivial with ⟨next, stream₁, step, -⟩ | ⟨_, _, _, none⟩
    · obtain ⟨valid₁, capacity₁⟩ := valid_perform valid operation stream next stream₁ trivial step
      obtain ⟨l', stream', run, valid', capacity'⟩ := ih valid₁ stream₁
      refine ⟨l', stream', ?_, valid', capacity'.trans capacity₁⟩
      rw [performAll, bind_ok step]
      exact run
    · exact none.elim

/-- Through any operations, and whatever is offered, a list holds no more neighbors than it may, no node
twice, not its owner and no NaN, and it is strictly in order.  From there on an offer improves it, and a
cut leaves a front of it. -/
theorem performAll_in_order (capacity owner : Nat) (operations : List Operation)
    (stream : Random.Stream) :
    ∃ l stream', performAll owner { capacity } operations stream = (.ok l, stream')
      ∧ l.entries.length ≤ capacity
      ∧ l.ids.Nodup
      ∧ owner ∉ l.ids
      ∧ (∀ x ∈ l.entries, x.similarity.isNaN = false)
      ∧ l.entries.Pairwise Neighbor.Better
      ∧ (∀ candidate similarity, l.Improves owner candidate similarity)
      ∧ ∀ cutoff, (l.filter cutoff).entries <+: l.entries
          ∧ (l.filter cutoff).entries
            = l.entries.takeWhile fun x => decide (cutoff ≤ x.similarity) := by
  obtain ⟨l, stream', run, valid, same⟩ :=
    performAll_delivers (valid_empty capacity owner) operations stream
  have bounded : l.entries.length ≤ capacity := Nat.le_trans valid.bounded (Nat.le_of_eq same)
  have ordered : l.entries.Pairwise Neighbor.Better :=
    valid.ordered.imp_of_mem fun hx hy before =>
      (Neighbor.precedes_iff_better (valid.numbers _ hx) (valid.numbers _ hy)).mp before
  refine ⟨l, stream', run, bounded, valid.distinct, valid.others, valid.numbers, ordered,
    improves_add valid, fun cutoff => ?_⟩
  have front := filter_eq_takeWhile valid cutoff
  exact ⟨front ▸ List.takeWhile_prefix _, front⟩

end NeighborList

end NeighborGraph
