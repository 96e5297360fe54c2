import NeighborGraph.Proofs.Json.Values

/-!
# Records read back

`Fills` follows the members of a record: each is read by the field that has its name, into what the
members before it made.  A record that is written member by member is read back as what its members
make (`reads_record`).
-/

namespace NeighborGraph.Json

variable {α : Type} {fields : List (Field α)} {indent fuel : ℕ} {seen : List String}
  {members : List (String × Writer)} {a b : α} {blanks rest : List Char}

/-- Members that stand after the ones in `seen` make `b` of `a`, and no required field is missing
then. -/
inductive Fills (fields : List (Field α)) (indent : ℕ) :
    (seen : List String) → List (String × Writer) → α → α → Prop
  | done {seen : List String} {a : α}
      (complete : (fields.any fun field => field.required && !seen.contains field.name) = false) :
      Fills fields indent seen [] a a
  | member {seen : List String} {name : String} {value : Writer} {field : Field α} {a b c : α}
      {members : List (String × Writer)} (field_of : fields.find? (·.name == name) = some field)
      (fresh : seen.contains name = false) (reads : Reads (field.read a) (value indent) b)
      (more : Fills fields indent (name :: seen) members b c) :
      Fills fields indent seen ((name, value) :: members) a c

/-- The parts that members are written as. -/
def memberParts (members : List (String × Writer)) : List Writer :=
  members.map fun (name, value) => Writer.member name value

theorem memberName_quote (name : String) (rest : List Char) :
    memberName (Writer.quote name.toList ++ rest) = .ok (name, rest) := by
  have opening : expect '"' ('"' :: (name.toList.flatMap Writer.escape ++ '"' :: rest)) =
      .ok ((), name.toList.flatMap Writer.escape ++ '"' :: rest) := by
    rw [expect, bind_ok (peek_cons (by decide)), if_pos rfl, advance_cons]
  rw [quote_append, memberName, bind_ok opening, bind_ok (string_quote _ _), String.ofList_toList]
  rfl

theorem expect_colon (rest : List Char) : expect ':' (':' :: rest) = .ok ((), rest) := by
  rw [expect, bind_ok (peek_cons (by decide)), if_pos rfl, advance_cons]

theorem membersFrom_parts (first : Bool) (fills : Fills fields indent seen members a b)
    (passed : ∀ c ∈ blanks, isBlank c = true) (ended : Ended (blanks ++ '\x7d' :: rest))
    (room : members.length < fuel) :
    membersFrom fields fuel first seen a
      (parts indent first (memberParts members) ++ (blanks ++ '\x7d' :: rest)) = .ok (b, rest) := by
  induction fills generalizing fuel first with
  | done complete =>
    obtain ⟨fuel, rfl⟩ := Nat.exists_eq_add_one.mpr (Nat.zero_lt_of_lt room)
    rw [membersFrom, memberParts, List.map_nil, parts, List.nil_append,
      bind_ok (separator_close passed (by decide))]
    simp only [Bool.false_eq_true, if_false, complete]
    rfl
  | @member seen name value field a b c members field_of fresh reads more ih =>
    rw [List.length_cons] at room
    obtain ⟨fuel, rfl⟩ := Nat.exists_eq_add_one.mpr (Nat.zero_lt_of_lt room)
    have taken := reads.reads [' '] (parts indent false (memberParts members) ++
      (blanks ++ '\x7d' :: rest)) (by simp [isBlank]) (ended_parts ended)
    have later := ih false (show members.length < fuel by omega)
    simp only [memberParts, List.map_cons, parts, Writer.member, List.append_assoc,
      List.cons_append, List.nil_append] at taken later ⊢
    have opening (more : List Char) : separator '\x7d' first ((if first then [] else [',']) ++
        (Writer.line indent ++ (Writer.quote name.toList ++ more))) =
        .ok (true, Writer.quote name.toList ++ more) :=
      separator_part (by decide) (by decide) (by decide)
    rw [membersFrom, bind_ok (opening _), if_pos rfl, bind_ok (memberName_quote _ _)]
    simp only [field_of, fresh, Bool.false_eq_true, if_false]
    rw [bind_ok (expect_colon _), bind_ok taken]
    exact later

/-- A record is read back as what its members make. -/
theorem reads_record (fills : Fills fields (indent + 1) [] members a b) :
    Reads (record fields a) (Writer.record members indent) b where
  starts := by
    have front := block_append '\x7b' '\x7d' (memberParts members) indent []
    rw [List.append_nil] at front
    exact ⟨'\x7b', _, front, by decide, by decide⟩
  reads blanks rest blank _ := by
    show record fields a (blanks ++ (Writer.block _ _ (memberParts members) indent ++ rest)) = _
    rw [block_append, record, bind_ok (peek_blanks blank (by decide))]
    show (do advance; fun cs => membersFrom fields (cs.length + 1) true [] a cs) _ = _
    rw [bind_ok advance_cons]
    refine membersFrom_parts true fills (isBlank_lastLine _ _) (ended_lastLine _ (by simp)) ?_
    have := length_le_parts (indent + 1) true (memberParts members)
    simp only [memberParts, List.length_append, List.length_map] at this ⊢
    omega

end NeighborGraph.Json
