import FuzzyRules.Scope
import FuzzyRules.Token.Cursor

namespace FuzzyRules

/-! Words are compared by value, so a quoted `end` closes too. What stands in
the place of a connective is passed over. -/

/-- The antecedents from the cursor on, and the closing `end` of the rule with
this consequent. -/
def Antecedent.readAll (consequent : String) (cursor : Cursor) :
    Reading (List Antecedent) :=
  if cursor.peek.value = "end" then ⟨[], cursor.advance 1, []⟩
  else if _atEnd : cursor.isAtEnd then
    ⟨[], cursor.advance 1, [.unfinishedRule consequent]⟩
  else if cursor.peek.value = "and" then
    Antecedent.readAll consequent (cursor.advance 1)
  else
    let others := Antecedent.readAll consequent (cursor.advance 3)
    { value := ⟨cursor.peek.value, (cursor.peekNth 2).value⟩ :: others.value
      cursor := others.cursor
      diagnostics := (cursor.advance 1).mismatch "is" ++ others.diagnostics }
termination_by cursor.rest.length
decreasing_by
  all_goals
    exact Cursor.rest_length_advance_lt (by simpa using _atEnd) (by omega)

section AntecedentEquations

variable {cursor : Cursor} (consequent : String)

theorem Antecedent.readAll_of_end (isEnd : cursor.peek.value = "end") :
    Antecedent.readAll consequent cursor = ⟨[], cursor.advance 1, []⟩ := by
  rw [Antecedent.readAll, if_pos isEnd]

theorem Antecedent.readAll_of_and (inside : cursor.isAtEnd = false)
    (isAnd : cursor.peek.value = "and") :
    Antecedent.readAll consequent cursor =
      Antecedent.readAll consequent (cursor.advance 1) := by
  rw [Antecedent.readAll, if_neg (by simp [isAnd]), dif_neg (by simp [inside]),
    if_pos isAnd]

theorem Antecedent.readAll_of_subject (inside : cursor.isAtEnd = false)
    (notEnd : cursor.peek.value ≠ "end") (notAnd : cursor.peek.value ≠ "and") :
    Antecedent.readAll consequent cursor =
      let others := Antecedent.readAll consequent (cursor.advance 3)
      { value := ⟨cursor.peek.value, (cursor.peekNth 2).value⟩ :: others.value
        cursor := others.cursor
        diagnostics :=
          (cursor.advance 1).mismatch "is" ++ others.diagnostics } := by
  rw [Antecedent.readAll, if_neg notEnd, dif_neg (by simp [inside]),
    if_neg notAnd]

end AntecedentEquations

def Rule.read (cursor : Cursor) : Reading Rule :=
  let consequent := (cursor.peekNth 1).value
  let antecedents := Antecedent.readAll consequent (cursor.advance 3)
  { value := ⟨consequent, antecedents.value⟩
    cursor := antecedents.cursor
    diagnostics :=
      (cursor.advance 2).mismatch "when" ++ antecedents.diagnostics }

theorem Antecedent.exists_readAll_cursor (consequent : String)
    (cursor : Cursor) :
    ∃ n, (Antecedent.readAll consequent cursor).cursor =
      cursor.advance (1 + n) := by
  fun_induction Antecedent.readAll consequent cursor with
  | case1 => exact ⟨0, rfl⟩
  | case2 => exact ⟨0, rfl⟩
  | case3 cursor _ _ _ ih =>
      obtain ⟨n, hn⟩ := ih
      exact ⟨1 + n, hn.trans (Cursor.advance_advance cursor 1 (1 + n))⟩
  | case4 cursor _ _ _ _ ih =>
      obtain ⟨n, hn⟩ := ih
      refine ⟨3 + n,
        hn.trans ((Cursor.advance_advance cursor 3 (1 + n)).trans ?_)⟩
      congr 1
      omega

theorem Rule.exists_read_cursor (cursor : Cursor) :
    ∃ n, (Rule.read cursor).cursor = cursor.advance (4 + n) := by
  obtain ⟨n, hn⟩ :=
    Antecedent.exists_readAll_cursor (cursor.peekNth 1).value (cursor.advance 3)
  refine ⟨n, ?_⟩
  simp only [Rule.read, hn, Cursor.advance_advance]
  congr 1
  omega

private theorem Rule.rest_length_read_lt {cursor : Cursor}
    (inside : cursor.isAtEnd = false) :
    (Rule.read cursor).cursor.rest.length < cursor.rest.length := by
  obtain ⟨n, hn⟩ := Rule.exists_read_cursor cursor
  rw [hn]
  exact Cursor.rest_length_advance_lt inside (by omega)

/-- The rules from the cursor on, and the closing `end` of the rulebase with
this name. -/
def Rule.readAll (rulebase : String) (cursor : Cursor) : Reading (List Rule) :=
  if cursor.peek.value = "end" then ⟨[], cursor.advance 1, []⟩
  else if _atEnd : cursor.isAtEnd then
    ⟨[], cursor.advance 1, [.unfinishedRulebase rulebase]⟩
  else if cursor.peek.value = "rule" then
    let first := Rule.read cursor
    let others := Rule.readAll rulebase first.cursor
    { value := first.value :: others.value
      cursor := others.cursor
      diagnostics := first.diagnostics ++ others.diagnostics }
  else Rule.readAll rulebase (cursor.advance 1)
termination_by cursor.rest.length
decreasing_by
  · exact Rule.rest_length_read_lt (by simpa using _atEnd)
  · exact Cursor.rest_length_advance_lt (by simpa using _atEnd) (by omega)

section RuleEquations

variable {cursor : Cursor} (rulebase : String)

theorem Rule.readAll_of_end (isEnd : cursor.peek.value = "end") :
    Rule.readAll rulebase cursor = ⟨[], cursor.advance 1, []⟩ := by
  rw [Rule.readAll, if_pos isEnd]

theorem Rule.readAll_of_rule (inside : cursor.isAtEnd = false)
    (isRule : cursor.peek.value = "rule") :
    Rule.readAll rulebase cursor =
      let first := Rule.read cursor
      let others := Rule.readAll rulebase first.cursor
      { value := first.value :: others.value
        cursor := others.cursor
        diagnostics := first.diagnostics ++ others.diagnostics } := by
  rw [Rule.readAll, if_neg (by simp [isRule]), dif_neg (by simp [inside]),
    if_pos isRule]

theorem Rule.readAll_of_other (inside : cursor.isAtEnd = false)
    (notEnd : cursor.peek.value ≠ "end")
    (notRule : cursor.peek.value ≠ "rule") :
    Rule.readAll rulebase cursor =
      Rule.readAll rulebase (cursor.advance 1) := by
  rw [Rule.readAll, if_neg notEnd, dif_neg (by simp [inside]), if_neg notRule]

end RuleEquations

theorem Rule.exists_readAll_cursor (rulebase : String) (cursor : Cursor) :
    ∃ n, (Rule.readAll rulebase cursor).cursor = cursor.advance (1 + n) := by
  fun_induction Rule.readAll rulebase cursor with
  | case1 => exact ⟨0, rfl⟩
  | case2 => exact ⟨0, rfl⟩
  | case3 cursor _ _ _ first _ ih =>
      obtain ⟨n, hn⟩ := ih
      obtain ⟨m, hm⟩ := Rule.exists_read_cursor cursor
      refine ⟨4 + m + n, hn.trans ?_⟩
      rw [show first.cursor = cursor.advance (4 + m) from hm,
        Cursor.advance_advance]
      congr 1
      omega
  | case4 cursor _ _ _ ih =>
      obtain ⟨n, hn⟩ := ih
      exact ⟨1 + n, hn.trans (Cursor.advance_advance cursor 1 (1 + n))⟩

/-- The rulebase at the cursor, with the consequent and the diagnostics that
`scope` gives it. If no universe has its name, its body is left unread: three
tokens are passed and the rulebase is empty. -/
def Rulebase.readBody (scope : Scope) (id : Nat) (cursor : Cursor) :
    Reading Rulebase :=
  let name := (cursor.peekNth 1).value
  match scope.universeId? name with
  | none => ⟨⟨id, name, none, []⟩, cursor.advance 3, [.unmatchedRulebase name]⟩
  | some consequent =>
      let rules := Rule.readAll name (cursor.advance 2)
      { value := ⟨id, name, some consequent, rules.value⟩
        cursor := rules.cursor
        diagnostics := rules.diagnostics ++
          [.rulebaseRead id name consequent rules.value.length] }

def Rulebase.read (scope : Scope) (cursor : Cursor) :
    Except CompileError (Scope × Reading Rulebase) :=
  (scope.claim (cursor.peekNth 1).value).map fun (id, claimed) =>
    (claimed, Rulebase.readBody claimed id cursor)

theorem Rulebase.exists_readBody_cursor (scope : Scope) (id : Nat)
    (cursor : Cursor) :
    ∃ n, (Rulebase.readBody scope id cursor).cursor =
      cursor.advance (3 + n) := by
  rw [Rulebase.readBody]
  split
  · exact ⟨0, rfl⟩
  · obtain ⟨n, hn⟩ :=
      Rule.exists_readAll_cursor (cursor.peekNth 1).value (cursor.advance 2)
    refine ⟨n, hn.trans ((Cursor.advance_advance cursor 2 (1 + n)).trans ?_)⟩
    congr 1
    omega

theorem Rulebase.exists_cursor_of_read {scope claimed : Scope} {cursor : Cursor}
    {reading : Reading Rulebase}
    (h : Rulebase.read scope cursor = .ok (claimed, reading)) :
    ∃ n, reading.cursor = cursor.advance (3 + n) := by
  rw [Rulebase.read] at h
  cases hclaim : scope.claim (cursor.peekNth 1).value with
  | error error => simp [hclaim, Except.map] at h
  | ok claim =>
      simp only [hclaim, Except.map, Except.ok.injEq, Prod.mk.injEq] at h
      rw [← h.2]
      exact Rulebase.exists_readBody_cursor claim.2 claim.1 cursor

end FuzzyRules
