import FuzzyRules.Proofs.Rulebase.Reading

namespace FuzzyRules

/-! Clauses end at the first `end` between them, quoted or not, or where the
tokens run out. All of this is decided by the values of tokens. -/

namespace Rule

/-- A part of a rule behind its connective. Its first token decides which of the
two it is. -/
inductive Clause where
  | conjunction (token : Token) (isAnd : token.value = "and")
  | antecedent (subject connective condition : Token)
      (notEnd : subject.value ≠ "end")
      (notAnd : subject.value ≠ "and")

namespace Clause

def width : Clause → Nat
  | conjunction _ _ => 1
  | antecedent _ _ _ _ _ => 3

def antecedent? : Clause → Option Antecedent
  | conjunction _ _ => none
  | antecedent subject _ condition _ _ => some ⟨subject.value, condition.value⟩

/-- The first token of the clause is among the tokens. Of the two others of an
antecedent, those past the end are read as empty. -/
def StandsAt (tokens : List Token) (position : Nat) : Clause → Prop
  | conjunction token _ => tokens[position]? = some token
  | antecedent subject connective condition _ _ =>
      tokens[position]? = some subject ∧
        tokens.getD (position + 1) .empty = connective ∧
        tokens.getD (position + 2) .empty = condition

end Clause

/-- The clauses from one position up to another. -/
inductive Clauses (tokens : List Token) : Nat → List Clause → Nat → Prop where
  | nil (position : Nat) : Clauses tokens position [] position
  | cons {position stop : Nat} {clause : Clause} {clauses : List Clause}
      (stands : clause.StandsAt tokens position)
      (others : Clauses tokens (position + clause.width) clauses stop) :
      Clauses tokens position (clause :: clauses) stop

/-- No clause follows: an `end` stands at the position, or nothing does. -/
def EndsAt (tokens : List Token) (position : Nat) : Prop :=
  tokens.length ≤ position ∨ (tokens.getD position .empty).value = "end"

section Decomposition

variable {tokens : List Token} {position : Nat}

theorem Clause.StandsAt.not_endsAt {clause : Clause}
    (stands : clause.StandsAt tokens position) : ¬EndsAt tokens position := by
  rintro (past | isEnd)
  · rw [← List.getElem?_eq_none_iff] at past
    cases clause with
    | conjunction token isAnd => simp [StandsAt, past] at stands
    | antecedent subject connective condition notEnd notAnd =>
        simp [StandsAt, past] at stands
  · rw [List.getD_eq_getElem?_getD] at isEnd
    cases clause with
    | conjunction token isAnd =>
        rw [show tokens[position]? = some token from stands, Option.getD_some,
          isAnd] at isEnd
        exact absurd isEnd (by decide)
    | antecedent subject connective condition notEnd notAnd =>
        rw [stands.1, Option.getD_some] at isEnd
        exact notEnd isEnd

theorem Clause.StandsAt.eq {clause other : Clause}
    (stands : clause.StandsAt tokens position)
    (again : other.StandsAt tokens position) : other = clause := by
  cases clause with
  | conjunction token isAnd =>
      cases other with
      | conjunction otherToken otherIsAnd =>
          cases stands.symm.trans again
          rfl
      | antecedent subject connective condition notEnd notAnd =>
          cases stands.symm.trans again.1
          exact absurd isAnd notAnd
  | antecedent subject connective condition notEnd notAnd =>
      cases other with
      | conjunction token isAnd =>
          cases stands.1.symm.trans again
          exact absurd isAnd notAnd
      | antecedent otherSubject otherConnective otherCondition otherNotEnd
          otherNotAnd =>
          obtain ⟨isSubject, rfl, rfl⟩ := stands
          obtain ⟨isOther, rfl, rfl⟩ := again
          cases isSubject.symm.trans isOther
          rfl

theorem Clauses.unique {clauses others : List Clause} {stop other : Nat}
    (found : Clauses tokens position clauses stop) (ends : EndsAt tokens stop)
    (again : Clauses tokens position others other)
    (endsAgain : EndsAt tokens other) : others = clauses ∧ other = stop := by
  induction found generalizing others with
  | nil =>
      cases again with
      | nil => exact ⟨rfl, rfl⟩
      | cons stands _ => exact absurd ends stands.not_endsAt
  | cons stands _ ih =>
      cases again with
      | nil => exact absurd endsAgain stands.not_endsAt
      | cons standsAgain more =>
          obtain rfl := stands.eq standsAgain
          obtain ⟨rfl, rfl⟩ := ih ends more
          exact ⟨rfl, rfl⟩

/-- Where a rule does not end, one of the two clauses stands. -/
theorem exists_standsAt (goesOn : ¬EndsAt tokens position) :
    ∃ clause : Clause, clause.StandsAt tokens position := by
  rw [EndsAt, not_or, Nat.not_le] at goesOn
  obtain ⟨inside, notEnd⟩ := goesOn
  have found : tokens[position]? = some tokens[position] :=
    List.getElem?_eq_getElem inside
  rw [List.getD_eq_getElem?_getD, found, Option.getD_some] at notEnd
  by_cases isAnd : tokens[position].value = "and"
  · exact ⟨.conjunction tokens[position] isAnd, found⟩
  · exact ⟨.antecedent tokens[position] _ _ notEnd isAnd, found, rfl, rfl⟩

private theorem Clause.width_pos (clause : Clause) : 0 < clause.width := by
  cases clause with
  | conjunction => exact Nat.one_pos
  | antecedent => exact Nat.zero_lt_succ 2

theorem exists_clauses (tokens : List Token) (position : Nat) :
    ∃ clauses stop, Clauses tokens position clauses stop ∧
      EndsAt tokens stop := by
  by_cases ends : EndsAt tokens position
  · exact ⟨[], position, .nil position, ends⟩
  · obtain ⟨clause, stands⟩ := exists_standsAt ends
    have inside : position < tokens.length :=
      Nat.lt_of_not_le fun past => ends (Or.inl past)
    have forward := clause.width_pos
    obtain ⟨clauses, stop, others, stops⟩ :=
      exists_clauses tokens (position + clause.width)
    exact ⟨clause :: clauses, stop, .cons stands others, stops⟩
termination_by tokens.length - position

end Decomposition

end Rule

def Diagnostic.warnings (diagnostics : List Diagnostic) : List Diagnostic :=
  diagnostics.filter fun diagnostic => diagnostic.level = .warn

private theorem Diagnostic.warnings_mismatch_append (cursor : Cursor)
    (expected : String) (others : List Diagnostic) :
    warnings (cursor.mismatch expected ++ others) = warnings others := by
  unfold Cursor.mismatch
  split <;> rfl

private theorem Antecedent.readAll_of_isAtEnd (consequent : String)
    {cursor : Cursor} (atEnd : cursor.isAtEnd = true) :
    Antecedent.readAll consequent cursor =
      ⟨[], cursor.advance 1, [.unfinishedRule consequent]⟩ := by
  rw [Antecedent.readAll, if_neg (by rw [Cursor.peek_of_isAtEnd atEnd]; decide),
    dif_pos atEnd]

namespace Rule

/-- The antecedents read are those among the clauses, and the reading ends
behind the clauses. -/
theorem Clauses.readAll {tokens : List Token} {position stop : Nat}
    {clauses : List Clause} (found : Clauses tokens position clauses stop)
    (ends : EndsAt tokens stop) (consequent : String) :
    let reading :=
      Antecedent.readAll consequent ((Cursor.start tokens).advance position)
    reading.value = clauses.filterMap Clause.antecedent? ∧
      reading.cursor = (Cursor.start tokens).advance (stop + 1) ∧
      Diagnostic.warnings reading.diagnostics =
        if tokens.length ≤ stop then [.unfinishedRule consequent] else [] := by
  induction found with
  | nil position =>
      by_cases past : tokens.length ≤ position
      · rw [Antecedent.readAll_of_isAtEnd consequent
          ((Cursor.isAtEnd_advance_start_iff tokens position).mpr past),
          if_pos past]
        exact ⟨rfl, Cursor.advance_advance _ _ _, rfl⟩
      · have isEnd : ((Cursor.start tokens).advance position).peek.value =
            "end" := by
          rw [Cursor.peek, Cursor.peekNth_advance_start]
          exact ends.resolve_left past
        rw [Antecedent.readAll_of_end consequent isEnd, if_neg past]
        exact ⟨rfl, Cursor.advance_advance _ _ _, rfl⟩
  | @cons position stop clause clauses stands others ih =>
      have inside : ((Cursor.start tokens).advance position).isAtEnd =
          false := by
        rw [Bool.eq_false_iff, Ne, Cursor.isAtEnd_advance_start_iff]
        exact fun past => stands.not_endsAt (Or.inl past)
      have others := ih ends
      rw [← Cursor.advance_advance] at others
      cases clause with
      | conjunction token isAnd =>
          have found : tokens[position]? = some token := stands
          have peek : ((Cursor.start tokens).advance position).peek =
              token := by
            rw [Cursor.peek, Cursor.peekNth_advance_start, Nat.add_zero,
              List.getD_eq_getElem?_getD, found, Option.getD_some]
          rw [Antecedent.readAll_of_and consequent inside (peek ▸ isAnd)]
          exact others
      | antecedent subject connective condition notEnd notAnd =>
          obtain ⟨found, _, rfl⟩ := stands
          have peek : ((Cursor.start tokens).advance position).peek =
              subject := by
            rw [Cursor.peek, Cursor.peekNth_advance_start, Nat.add_zero,
              List.getD_eq_getElem?_getD, found, Option.getD_some]
          obtain ⟨values, moved, warned⟩ := others
          rw [Antecedent.readAll_of_subject consequent inside (peek ▸ notEnd)
              (peek ▸ notAnd), peek, Cursor.peekNth_advance_start]
          refine ⟨congrArg _ values, moved, ?_⟩
          exact (Diagnostic.warnings_mismatch_append _ _ _).trans warned

theorem Clauses.read {tokens : List Token} {position stop : Nat}
    {clauses : List Clause} (found : Clauses tokens (position + 3) clauses stop)
    (ends : EndsAt tokens stop) :
    let reading := Rule.read ((Cursor.start tokens).advance position)
    let consequent := (tokens.getD (position + 1) .empty).value
    reading.value = ⟨consequent, clauses.filterMap Clause.antecedent?⟩ ∧
      reading.cursor = (Cursor.start tokens).advance (stop + 1) ∧
      Diagnostic.warnings reading.diagnostics =
        if tokens.length ≤ stop then [.unfinishedRule consequent] else [] := by
  intro reading consequent
  have isConsequent :
      (((Cursor.start tokens).advance position).peekNth 1).value =
        consequent := by
    rw [Cursor.peekNth_advance_start]
  obtain ⟨values, moved, warned⟩ := found.readAll ends consequent
  rw [← Cursor.advance_advance] at values moved warned
  unfold reading
  rw [Rule.read, isConsequent]
  refine ⟨congrArg (Rule.mk _) values, moved, ?_⟩
  exact (Diagnostic.warnings_mismatch_append _ _ _).trans warned

end Rule

/-! Kinds of tokens. -/

/-- Two cursors at the same position, before tokens of the same values. -/
structure Cursor.Alike (first second : Cursor) : Prop where
  position : first.position = second.position
  values : first.rest.map Token.value = second.rest.map Token.value

section SameValues

variable {first second : Cursor}
  (same : first.rest.map Token.value = second.rest.map Token.value)

include same

namespace Cursor

theorem values_advance (n : Nat) :
    (first.advance n).rest.map Token.value =
      (second.advance n).rest.map Token.value := by
  rw [advance_rest, advance_rest, List.map_drop, List.map_drop, same]

theorem peekNth_value (n : Nat) :
    (first.peekNth n).value = (second.peekNth n).value := by
  have values := congrArg (List.getD · n Token.empty.value) same
  rwa [List.getD_map, List.getD_map] at values

private theorem isAtEnd_of_values : first.isAtEnd = second.isAtEnd := by
  rw [isAtEnd, isAtEnd, ← List.isEmpty_map, same, List.isEmpty_map]

private theorem messages_mismatch (expected : String) :
    (first.mismatch expected).map Diagnostic.message =
      (second.mismatch expected).map Diagnostic.message := by
  have peek : first.peek.value = second.peek.value := peekNth_value same 0
  rw [mismatch, mismatch, peek]
  split <;> rfl

end Cursor

end SameValues

theorem Cursor.Alike.advance {first second : Cursor}
    (alike : first.Alike second) (n : Nat) :
    (first.advance n).Alike (second.advance n) where
  position := congrArg (· + n) alike.position
  values := Cursor.values_advance alike.values n

/-- Two readings that say the same and end alike. -/
structure Reading.Alike {α : Type} (first second : Reading α) : Prop where
  value : first.value = second.value
  cursor : first.cursor.Alike second.cursor
  messages : first.diagnostics.map Diagnostic.message =
    second.diagnostics.map Diagnostic.message

/-- Two readings that say the same, having taken as many tokens each from its
own cursor. -/
structure Reading.Parallel {α : Type} (first second : Cursor)
    (reading other : Reading α) : Prop where
  value : reading.value = other.value
  moved : ∃ n, reading.cursor = first.advance n ∧
    other.cursor = second.advance n
  messages : reading.diagnostics.map Diagnostic.message =
    other.diagnostics.map Diagnostic.message

private theorem exists_moved_of_advance {first second stop other : Cursor}
    (m : Nat)
    (moved : ∃ n, stop = (first.advance m).advance n ∧
      other = (second.advance m).advance n) :
    ∃ n, stop = first.advance n ∧ other = second.advance n := by
  obtain ⟨n, rfl, rfl⟩ := moved
  exact ⟨m + n, Cursor.advance_advance first m n,
    Cursor.advance_advance second m n⟩

private theorem Antecedent.readAll_parallel (consequent : String)
    (first : Cursor) :
    ∀ second : Cursor,
      first.rest.map Token.value = second.rest.map Token.value →
      (Antecedent.readAll consequent first).Parallel first second
        (Antecedent.readAll consequent second) := by
  fun_induction Antecedent.readAll consequent first with
  | case1 first isEnd =>
      intro second same
      rw [Antecedent.readAll_of_end consequent
        ((Cursor.peekNth_value same 0).symm.trans isEnd)]
      exact ⟨rfl, ⟨1, rfl, rfl⟩, rfl⟩
  | case2 first notEnd atEnd =>
      intro second same
      rw [Antecedent.readAll_of_isAtEnd consequent
        ((Cursor.isAtEnd_of_values same).symm.trans atEnd)]
      exact ⟨rfl, ⟨1, rfl, rfl⟩, rfl⟩
  | case3 first notEnd inside isAnd ih =>
      intro second same
      have secondInside : second.isAtEnd = false := by
        simpa [Cursor.isAtEnd_of_values same] using inside
      obtain ⟨values, moved, messages⟩ := ih _ (Cursor.values_advance same 1)
      rw [Antecedent.readAll_of_and consequent secondInside
        ((Cursor.peekNth_value same 0).symm.trans isAnd)]
      exact ⟨values, exists_moved_of_advance 1 moved, messages⟩
  | case4 first notEnd inside notAnd others ih =>
      intro second same
      have subject : first.peek.value = second.peek.value :=
        Cursor.peekNth_value same 0
      have secondInside : second.isAtEnd = false := by
        simpa [Cursor.isAtEnd_of_values same] using inside
      obtain ⟨values, moved, messages⟩ := ih _ (Cursor.values_advance same 3)
      rw [Antecedent.readAll_of_subject consequent secondInside
        (subject ▸ notEnd) (subject ▸ notAnd), ← subject,
        ← Cursor.peekNth_value same 2]
      refine ⟨congrArg (List.cons _) values,
        exists_moved_of_advance 3 moved, ?_⟩
      rw [List.map_append, List.map_append,
        Cursor.messages_mismatch (Cursor.values_advance same 1) "is"]
      exact congrArg _ messages

theorem Rule.read_parallel {first second : Cursor}
    (same : first.rest.map Token.value = second.rest.map Token.value) :
    (Rule.read first).Parallel first second (Rule.read second) := by
  obtain ⟨values, moved, messages⟩ :=
    Antecedent.readAll_parallel (first.peekNth 1).value _ _
      (Cursor.values_advance same 3)
  rw [Rule.read, Rule.read, ← Cursor.peekNth_value same 1]
  refine ⟨congrArg (Rule.mk _) values, exists_moved_of_advance 3 moved, ?_⟩
  rw [List.map_append, List.map_append,
    Cursor.messages_mismatch (Cursor.values_advance same 2) "when"]
  exact congrArg _ messages

private theorem Rule.read_alike {first second : Cursor}
    (alike : first.Alike second) :
    (Rule.read first).Alike (Rule.read second) := by
  obtain ⟨value, ⟨n, moved, otherMoved⟩, messages⟩ :=
    Rule.read_parallel alike.values
  refine ⟨value, ?_, messages⟩
  rw [moved, otherMoved]
  exact alike.advance n

namespace Rule

/-- The tokens from the fourth on fall into clauses in one way. The rule has the
value of the second token for its consequent and the antecedents among the
clauses, and the reading ends behind the `end` that follows them, or past the
end of the tokens with a warning. Tokens of other kinds with the same values are
read alike. -/
theorem read_takes_clauses (tokens : List Token) (position : Nat) :
    let reading := read ((Cursor.start tokens).advance position)
    let consequent := (tokens.getD (position + 1) .empty).value
    (∃ clauses stop,
      Clauses tokens (position + 3) clauses stop ∧ EndsAt tokens stop ∧
        (∀ others other, Clauses tokens (position + 3) others other →
          EndsAt tokens other → others = clauses ∧ other = stop) ∧
        reading.value = ⟨consequent, clauses.filterMap Clause.antecedent?⟩ ∧
        reading.cursor = (Cursor.start tokens).advance (stop + 1) ∧
        Diagnostic.warnings reading.diagnostics =
          if tokens.length < reading.cursor.position then
            [.unfinishedRule consequent] else []) ∧
    ∀ others : List Token, others.map Token.value = tokens.map Token.value →
      let again := read ((Cursor.start others).advance position)
      again.value = reading.value ∧
        again.cursor.position = reading.cursor.position ∧
        again.diagnostics.map Diagnostic.message =
          reading.diagnostics.map Diagnostic.message := by
  intro reading consequent
  constructor
  · obtain ⟨clauses, stop, found, ends⟩ := exists_clauses tokens (position + 3)
    obtain ⟨values, moved, warned⟩ := found.read ends
    have stopsAt : reading.cursor.position = stop + 1 := by
      rw [moved, Cursor.advance_position]
      exact Nat.zero_add _
    refine ⟨clauses, stop, found, ends, fun _ _ => found.unique ends, values,
      moved, ?_⟩
    rw [stopsAt, warned]
    exact if_congr Nat.lt_succ_iff.symm rfl rfl
  · intro others same again
    have alike : (Cursor.start others).Alike (Cursor.start tokens) :=
      ⟨rfl, same⟩
    obtain ⟨values, moved, messages⟩ := read_alike (alike.advance position)
    exact ⟨values, moved.position, messages⟩

/-- Words in each other's places: an `end` for a condition, an `and` in quotes,
and at last an antecedent of which a connective is there but no condition. -/
def straddling : List Token :=
  [.keyword "rule", ⟨.literal, "c"⟩, .keyword "is", ⟨.literal, "u"⟩,
    .keyword "when", .keyword "end", .keyword "and", ⟨.literal, "and"⟩,
    ⟨.other, "w"⟩, .keyword "end"]

private theorem clauses_straddling :
    Clauses straddling 3
      [.antecedent ⟨.literal, "u"⟩ (.keyword "when") (.keyword "end")
          (by decide) (by decide),
        .conjunction (.keyword "and") rfl,
        .conjunction ⟨.literal, "and"⟩ rfl,
        .antecedent ⟨.other, "w"⟩ (.keyword "end") .empty
          (by decide) (by decide)] 11 :=
  .cons ⟨rfl, rfl, rfl⟩
    (.cons rfl (.cons rfl (.cons ⟨rfl, rfl, rfl⟩ (.nil 11))))

theorem read_takes_clauses_straddling :
    let reading := read (.start straddling)
    let plain := straddling.map fun token => (⟨.other, token.value⟩ : Token)
    reading.value = ⟨"c", [⟨"u", "end"⟩, ⟨"w", ""⟩]⟩ ∧
      reading.cursor = (Cursor.start straddling).advance 12 ∧
      Diagnostic.warnings reading.diagnostics = [.unfinishedRule "c"] ∧
      (read (.start plain)).value = reading.value := by
  intro reading plain
  obtain ⟨⟨clauses, stop, _, _, unique, values, moved, warned⟩, kinds⟩ :=
    read_takes_clauses straddling 0
  obtain ⟨rfl, rfl⟩ := unique _ _ clauses_straddling (Or.inl (by decide))
  refine ⟨values, moved, ?_, (kinds plain rfl).1⟩
  rw [moved] at warned
  exact warned

end Rule

end FuzzyRules
