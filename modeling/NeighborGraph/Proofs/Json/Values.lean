import NeighborGraph.Json.Reader
import NeighborGraph.Proofs.Json.Numbers

/-!
# Values read back

`Reads read text a` says that a reader takes the value `a` off every text that starts with `text`, after
any blanks, as long as what follows cannot belong to a number.  Words, texts, choices and lists that are
written are read back (`reads_word`, `reads_text`, `reads_choice`, `reads_list`).
-/

namespace NeighborGraph.Json

/-- A reader takes a value off the front of a text, after blanks. -/
structure Reads {α : Type} (read : Scan α) (text : List Char) (a : α) : Prop where
  /-- The text starts with no blank and with no end of a list. -/
  starts : ∃ c cs, text = c :: cs ∧ isBlank c = false ∧ c ≠ ']'
  reads : ∀ blanks rest, (∀ c ∈ blanks, isBlank c = true) → Ended rest →
    read (blanks ++ (text ++ rest)) = .ok (a, rest)

section Basic

variable {α β : Type} {read : Scan α} {written rest : List Char} {a : α}

theorem ended_of_stop {c : Char} (h : c = ',' ∨ c = '\n' ∨ c = ']' ∨ c = '\x7d') : Ended (c :: rest) := by
  rintro d ⟨⟩
  rcases h with rfl | rfl | rfl | rfl <;> decide

/-- What a value is made into. -/
theorem Reads.map (h : Reads read written a) (f : α → β) :
    Reads (do return f (← read)) written (f a) where
  starts := h.starts
  reads blanks rest blank ended := by
    rw [bind_ok (h.reads blanks rest blank ended)]
    rfl

/-- A whole text. -/
theorem Reads.parse (h : Reads read written a) : parse read written = .ok a := by
  have taken := h.reads [] [] (by simp) (by simp [Ended])
  rw [List.nil_append, List.append_nil] at taken
  simp only [Json.parse, taken]
  rfl

/-! ### Numbers -/

/-- The first character of a number. -/
def OpensNumber (c : Char) : Prop := c = '-' ∨ isDigit c = true

theorem OpensNumber.isBlank {c : Char} (h : OpensNumber c) : isBlank c = false := by
  rw [Bool.eq_false_iff]
  intro blank
  simp only [Json.isBlank, Bool.or_eq_true, beq_iff_eq] at blank
  rcases blank with ((rfl | rfl) | rfl) | rfl <;> revert h <;> simp [OpensNumber] <;> decide

theorem OpensNumber.ne {c d : Char} (h : OpensNumber c) (other : d ≠ '-' ∧ isDigit d = false) :
    c ≠ d := by
  rintro rfl
  rcases h with sign | digit
  · exact other.1 sign
  · rw [other.2] at digit
    cases digit

theorem OpensNumber.startsNumber {c : Char} (h : OpensNumber c) : startsNumber (some c) = true := by
  rcases h with rfl | digit
  · rfl
  · simp [Json.startsNumber, digit]

/-- A number starts with a sign or a digit. -/
theorem opensNumber_of_number {value : Number} (h : number written = .ok (value, rest)) :
    ∃ c cs, written = c :: cs ∧ OpensNumber c := by
  cases written with
  | nil => cases h
  | cons c cs =>
    refine ⟨c, cs, rfl, ?_⟩
    by_cases sign : c = '-'
    · exact .inl sign
    · right
      rw [number, bind_ok ahead_cons, if_neg fun same => sign (Option.some_inj.mp same), magnitude,
        bind_ok next_cons] at h
      cases digit : digit? c with
      | none =>
        rw [digit] at h
        cases h
      | some d => rw [isDigit, digit, Option.isSome_some]

theorem opensNumber_word (n : UInt64) (indent : ℕ) :
    ∃ c cs, Writer.word n indent = c :: cs ∧ OpensNumber c := by
  have ended : Ended [] := by simp [Ended]
  have taken := number_word (Nat.le_of_lt_succ n.toNat_lt) ended
  rw [List.append_nil] at taken
  exact opensNumber_of_number taken

/-- A reader that goes on with a number. -/
theorem reads_number {f : Number → Scan α} {value : Number}
    (h : ∀ rest, Ended rest → number (written ++ rest) = .ok (value, rest)) (made : f value = pure a) :
    Reads (do if startsNumber (← peek) then f (← number) else otherType) written a := by
  obtain ⟨c, cs, front, opens⟩ := opensNumber_of_number (h [] (by simp [Ended]))
  rw [List.append_nil] at front
  refine ⟨⟨c, cs, front, opens.isBlank, opens.ne (by decide)⟩, ?_⟩
  intro blanks rest blank ended
  have taken := h rest ended
  rw [front, List.cons_append] at taken ⊢
  rw [bind_ok (peek_blanks blank opens.isBlank), if_pos opens.startsNumber, bind_ok taken, made]
  rfl

theorem reads_word (n : UInt64) (indent : ℕ) : Reads word (Writer.word n indent) n := by
  have fits : n.toNat ≤ largestWord := Nat.le_of_lt_succ n.toNat_lt
  refine reads_number (fun rest ended => number_word fits ended) ?_
  show pure n.toNat.toUInt64 = _
  rw [Nat.toUInt64, UInt64.ofNat_toNat]

theorem reads_real {x y : Float} (indent : ℕ) (h : ∀ rest, Ended rest →
    number (Writer.numberLayout.characters x ++ rest) = .ok (.float y, rest)) :
    Reads real (Writer.real x indent) y :=
  reads_number h rfl

theorem reads_optional_word (value : Option UInt64) (indent : ℕ) :
    Reads (optional word) (Writer.optional Writer.word value indent) value := by
  cases value with
  | none =>
    refine ⟨⟨'n', "ull".toList, rfl, by decide, by decide⟩, fun blanks rest blank _ => ?_⟩
    show optional word (blanks ++ 'n' :: ("ull".toList ++ rest)) = _
    rw [optional, bind_ok (peek_blanks blank (by decide)), if_pos rfl]
    rfl
  | some n =>
    obtain ⟨c, cs, front, opens⟩ := opensNumber_word n indent
    have inner := reads_word n indent
    refine ⟨inner.starts, fun blanks rest blank ended => ?_⟩
    have taken := inner.reads [] rest (by simp) ended
    rw [List.nil_append, front, List.cons_append] at taken
    show optional word (blanks ++ (Writer.word n indent ++ rest)) = _
    rw [front, List.cons_append, optional, bind_ok (peek_blanks blank opens.isBlank),
      if_neg fun same => opens.ne (by decide) (Option.some_inj.mp same), bind_ok taken]
    rfl

/-! ### Texts and choices -/

theorem reads_text (s : String) (indent : ℕ) : Reads text (Writer.text s indent) s := by
  refine ⟨⟨'"', _, rfl, by decide, by decide⟩, fun blanks rest blank _ => ?_⟩
  rw [Writer.text, quote_append, Json.text, bind_ok (peek_blanks blank (by decide)), if_pos rfl, bind_ok advance_cons,
    bind_ok (string_quote _ _), String.ofList_toList]
  rfl

/-- A choice is written as its name. -/
theorem reads_choice {choices : List (String × α)} {name : String} (indent : ℕ)
    (h : choices.lookup name = some a) : Reads (choice choices) (Writer.text name indent) a := by
  have inner := reads_text name indent
  refine ⟨inner.starts, fun blanks rest blank ended => ?_⟩
  have passed := inner.reads [] rest (by simp) ended
  rw [List.nil_append, Writer.text, quote_append] at passed
  rw [Writer.text, quote_append]
  rw [choice, bind_ok (peek_blanks blank (by decide))]
  show (do choose choices (← Json.text)) _ = _
  rw [bind_ok passed, choose, h]
  rfl

end Basic

/-! ### Parts between brackets -/

section Parts

variable {indent : ℕ} {first : Bool} {close c : Char} {cs blanks rest : List Char}

/-- The parts of a list or a record, each but the first after a comma. -/
def parts (indent : ℕ) : (first : Bool) → List Writer → List Char
  | _, [] => []
  | first, w :: ws =>
    (if first then [] else [',']) ++ (Writer.line indent ++ (w indent ++ parts indent false ws))

theorem lines_eq_parts (indent : ℕ) (ws : List Writer) :
    Writer.lines indent ws = parts indent true ws := by
  induction ws with
  | nil => rfl
  | cons w ws ih =>
    cases ws with
    | nil => simp [Writer.lines, parts]
    | cons v ws =>
      rw [Writer.lines, ih]
      · simp [parts]
      · simp

/-- The blanks before the closing bracket. -/
def lastLine (indent : ℕ) (ws : List Writer) : List Char :=
  if ws.isEmpty then [] else Writer.line indent

theorem block_append (opening closing : Char) (ws : List Writer) (indent : ℕ) (rest : List Char) :
    Writer.block opening closing ws indent ++ rest =
      opening :: (parts (indent + 1) true ws ++ (lastLine indent ws ++ closing :: rest)) := by
  cases ws with
  | nil => simp [Writer.block, parts, lastLine]
  | cons w ws => simp [Writer.block, lines_eq_parts, lastLine]

theorem isBlank_line : ∀ c ∈ Writer.line indent, isBlank c = true := by
  simp [Writer.line, isBlank]

theorem isBlank_lastLine (indent : ℕ) (ws : List Writer) :
    ∀ c ∈ lastLine indent ws, isBlank c = true := by
  rw [lastLine]
  split
  · simp
  · exact isBlank_line

/-- A number ends before the closing bracket. -/
theorem ended_lastLine (ws : List Writer) (h : close = ']' ∨ close = '\x7d') :
    Ended (lastLine indent ws ++ close :: rest) := by
  rw [lastLine]
  split
  · exact ended_of_stop (by tauto)
  · exact ended_of_stop (by tauto)

/-- A number ends before the next part. -/
theorem ended_parts {ws : List Writer} (h : Ended rest) : Ended (parts indent false ws ++ rest) := by
  cases ws with
  | nil => exact h
  | cons w ws => exact ended_of_stop (by tauto)

theorem separator_part (blank : isBlank c = false) (other : c ≠ close) (comma : ',' ≠ close) :
    separator close first ((if first then [] else [',']) ++ (Writer.line indent ++ c :: cs)) =
      .ok (true, c :: cs) := by
  cases first with
  | true => simp [separator, bind_ok (peek_blanks isBlank_line blank), other]; rfl
  | false =>
    have look : peek (',' :: (Writer.line indent ++ c :: cs)) =
      .ok (some ',', ',' :: (Writer.line indent ++ c :: cs)) := peek_cons (by decide)
    simp [separator, bind_ok look, bind_ok advance_cons, comma,
      bind_ok (peek_blanks isBlank_line blank), other]
    rfl

theorem separator_close (passed : ∀ c ∈ blanks, isBlank c = true) (blank : isBlank close = false) :
    separator close first (blanks ++ close :: rest) = .ok (false, close :: rest) := by
  simp [separator, bind_ok (peek_blanks passed blank)]
  rfl

end Parts

/-! ### Lists -/

section Lists

variable {α : Type} {read : Scan α} {write : α → Writer} {indent fuel : ℕ} {as : List α}
  {blanks rest : List Char}

theorem elementsFrom_parts (first : Bool) (reads : ∀ a ∈ as, Reads read (write a indent) a)
    (passed : ∀ c ∈ blanks, isBlank c = true) (ended : Ended (blanks ++ ']' :: rest))
    (room : as.length < fuel) :
    elementsFrom read fuel first (parts indent first (as.map write) ++ (blanks ++ ']' :: rest)) =
      .ok (as, rest) := by
  induction as generalizing fuel first with
  | nil =>
    obtain ⟨fuel, rfl⟩ := Nat.exists_eq_add_one.mpr (Nat.zero_lt_of_lt room)
    rw [elementsFrom, List.map_nil, parts, List.nil_append,
      bind_ok (separator_close passed (by decide))]
    rfl
  | cons a as ih =>
    rw [List.length_cons] at room
    obtain ⟨fuel, rfl⟩ := Nat.exists_eq_add_one.mpr (Nat.zero_lt_of_lt room)
    have inner := reads a List.mem_cons_self
    obtain ⟨c, cs, front, blank, other⟩ := inner.starts
    have taken := inner.reads [] (parts indent false (as.map write) ++ (blanks ++ ']' :: rest))
      (by simp) (ended_parts ended)
    have later := ih false (fun a mem => reads a (List.mem_cons_of_mem _ mem))
      (show as.length < fuel by omega)
    rw [front, List.nil_append, List.cons_append] at taken
    simp only [List.map_cons, parts, List.append_assoc]
    rw [front, List.cons_append, elementsFrom, bind_ok (separator_part blank other (by decide)),
      if_pos rfl, bind_ok taken, bind_ok later]
    rfl

/-- Every part is written with some characters. -/
theorem length_le_parts (indent : ℕ) (first : Bool) (ws : List Writer) :
    ws.length ≤ (parts indent first ws).length := by
  induction ws generalizing first with
  | nil => simp
  | cons w ws ih =>
    have := ih false
    simp only [parts, Writer.line, List.length_append, List.length_cons]
    omega

/-- A list is read back if its elements are. -/
theorem reads_list (reads : ∀ a ∈ as, Reads read (write a (indent + 1)) a) :
    Reads (list read) (Writer.list (as.map write) indent) as where
  starts := by
    have front := block_append '[' ']' (as.map write) indent []
    rw [List.append_nil] at front
    exact ⟨'[', _, front, by decide, by decide⟩
  reads blanks rest blank _ := by
    rw [Writer.list, block_append, list, bind_ok (peek_blanks blank (by decide)), if_pos rfl,
      bind_ok advance_cons]
    refine elementsFrom_parts true reads (isBlank_lastLine _ _) (ended_lastLine _ (by simp)) ?_
    have := length_le_parts (indent + 1) true (as.map write)
    simp only [List.length_append, List.length_map] at this ⊢
    omega

end Lists

end NeighborGraph.Json
