import FuzzyRules.Compilation
import FuzzyRules.Proofs.Scope.History

namespace FuzzyRules

/-! What a run writes and what it leaves in the scope follow from the
declarations of its steps in order. -/

/-- A rulebase is declared together with the scope in which its rules are
written. -/
inductive Declaration where
  | ofUniverse (u : Universe)
  | ofRulebase (scope : Scope) (rulebase : Rulebase)

namespace Declaration

def name : Declaration → String
  | ofUniverse u => u.name
  | ofRulebase _ rulebase => rulebase.name

def lines : Declaration → Script
  | ofUniverse u => u.lines
  | ofRulebase scope rulebase => rulebase.lines scope

def universe? : Declaration → Option Universe
  | ofUniverse u => some u
  | ofRulebase _ _ => none

def rulebase? : Declaration → Option (Scope × Rulebase)
  | ofUniverse _ => none
  | ofRulebase scope rulebase => some (scope, rulebase)

/-- Rules are read only where a universe gives them a consequent. -/
def Consistent : Declaration → Prop
  | ofUniverse _ => True
  | ofRulebase _ rulebase => rulebase.consequent = none → rulebase.rules = []

end Declaration

def Token.opensBlock (token : Token) : Bool :=
  token.isKeyword "universe" || token.isKeyword "rulebase"

theorem Token.countKeyword_of_not_opensBlock {tokens : List Token}
    {keyword : String} (opens : (Token.keyword keyword).opensBlock = true)
    (between : ∀ token ∈ tokens, token.opensBlock = false) :
    countKeyword tokens keyword = 0 := by
  rw [countKeyword, List.countP_eq_zero]
  intro token member isKeyword
  have closed := between token member
  rw [eq_keyword_of_isKeyword isKeyword, opens] at closed
  cases closed

def Scope.claimed (scope : Scope) (name : String) : Scope :=
  { scope with rulebases := scope.rulebases ++ [name] }

theorem Rulebase.read_eq (scope : Scope) (cursor : Cursor) :
    Rulebase.read scope cursor =
      if (cursor.peekNth 1).value ∈ scope.rulebases then
        .error (.duplicateRulebase (cursor.peekNth 1).value)
      else
        let claimed := scope.claimed (cursor.peekNth 1).value
        .ok (claimed,
          Rulebase.readBody claimed scope.rulebases.length cursor) := by
  rw [Rulebase.read, Scope.claim]
  split <;> rfl

namespace Progress

/-- The name in the second place, that of the block at the cursor. -/
def name (progress : Progress) : String :=
  (progress.cursor.peekNth 1).value

def claimed (progress : Progress) : Scope :=
  progress.scope.claimed progress.name

def rulebaseReading (progress : Progress) : Reading Rulebase :=
  Rulebase.readBody progress.claimed progress.scope.rulebases.length
    progress.cursor

def afterRulebase (progress : Progress) : Progress where
  cursor := progress.rulebaseReading.cursor
  scope := progress.claimed
  lines :=
    progress.lines ++ progress.rulebaseReading.value.lines progress.claimed
  diagnostics := progress.diagnostics ++
    (progress.rulebaseReading.diagnostics ++
      progress.rulebaseReading.value.unresolved progress.claimed)

theorem compileRulebase_eq (progress : Progress) :
    progress.compileRulebase =
      if progress.name ∈ progress.scope.rulebases then
        .error (.duplicateRulebase progress.name)
      else .ok progress.afterRulebase := by
  rw [compileRulebase, Rulebase.read_eq, name]
  split <;> rfl

def declared (progress : Progress) : List Declaration :=
  if progress.cursor.peek.isKeyword "universe" then
    [.ofUniverse (Universe.read progress.scope progress.cursor).value]
  else if progress.cursor.peek.isKeyword "rulebase" then
    [.ofRulebase progress.claimed progress.rulebaseReading.value]
  else []

/-- What the steps up to the end of the tokens, or up to an error, declare. -/
def declarations (progress : Progress) : List Declaration :=
  if _atEnd : progress.cursor.isAtEnd then []
  else
    match _step : progress.step with
    | .error _ => []
    | .ok next => progress.declared ++ next.declarations
termination_by progress.cursor.rest.length
decreasing_by exact rest_length_lt_of_step (by simpa using _atEnd) _step

/-- The states in which a run stands at a token. A run that fails does so in the
last of them. -/
def visits (progress : Progress) : List Progress :=
  if _atEnd : progress.cursor.isAtEnd then []
  else
    match _step : progress.step with
    | .error _ => [progress]
    | .ok next => progress :: next.visits
termination_by progress.cursor.rest.length
decreasing_by exact rest_length_lt_of_step (by simpa using _atEnd) _step

theorem run_of_isAtEnd {progress : Progress}
    (atEnd : progress.cursor.isAtEnd = true) : progress.run = .ok progress := by
  rw [run, dif_pos atEnd]

theorem run_of_step_eq_ok {progress next : Progress}
    (inside : progress.cursor.isAtEnd = false)
    (stepped : progress.step = .ok next) : progress.run = next.run := by
  rw [run, dif_neg (by simp [inside])]
  split
  · next failed => rw [stepped] at failed; cases failed
  · next found => rw [stepped] at found; cases found; rfl

theorem run_of_step_eq_error {progress : Progress} {error : CompileError}
    (inside : progress.cursor.isAtEnd = false)
    (failed : progress.step = .error error) :
    progress.run = .error ⟨error, progress⟩ := by
  rw [run, dif_neg (by simp [inside])]
  split
  · next found => rw [failed] at found; cases found; rfl
  · next stepped => rw [failed] at stepped; cases stepped

private theorem declarations_of_isAtEnd {progress : Progress}
    (atEnd : progress.cursor.isAtEnd = true) : progress.declarations = [] := by
  rw [declarations, dif_pos atEnd]

private theorem declarations_of_step_eq_ok {progress next : Progress}
    (inside : progress.cursor.isAtEnd = false)
    (stepped : progress.step = .ok next) :
    progress.declarations = progress.declared ++ next.declarations := by
  rw [declarations, dif_neg (by simp [inside])]
  split
  · next failed => rw [stepped] at failed; cases failed
  · next found => rw [stepped] at found; cases found; rfl

private theorem visits_of_isAtEnd {progress : Progress}
    (atEnd : progress.cursor.isAtEnd = true) : progress.visits = [] := by
  rw [visits, dif_pos atEnd]

private theorem visits_of_step_eq_ok {progress next : Progress}
    (inside : progress.cursor.isAtEnd = false)
    (stepped : progress.step = .ok next) :
    progress.visits = progress :: next.visits := by
  rw [visits, dif_neg (by simp [inside])]
  split
  · next failed => rw [stepped] at failed; cases failed
  · next found => rw [stepped] at found; cases found; rfl

private theorem visits_of_step_eq_error {progress : Progress}
    {error : CompileError} (inside : progress.cursor.isAtEnd = false)
    (failed : progress.step = .error error) : progress.visits = [progress] := by
  rw [visits, dif_neg (by simp [inside])]
  split
  · rfl
  · next stepped => rw [failed] at stepped; cases stepped

/-- A run to the end of the tokens, with all that it declares. -/
inductive Ran : Progress → List Declaration → Progress → Prop where
  | finished {progress : Progress} (atEnd : progress.cursor.isAtEnd = true) :
      Ran progress [] progress
  | stepped {progress next finish : Progress} {declarations : List Declaration}
      (inside : progress.cursor.isAtEnd = false)
      (step : progress.step = .ok next)
      (others : Ran next declarations finish) :
      Ran progress (progress.declared ++ declarations) finish

theorem ran_of_run {progress finish : Progress}
    (ran : progress.run = .ok finish) :
    Ran progress progress.declarations finish := by
  fun_induction Progress.run progress with
  | case1 progress atEnd =>
      cases ran
      rw [declarations_of_isAtEnd atEnd]
      exact .finished atEnd
  | case2 progress inside error failed => cases ran
  | case3 progress inside next found ih =>
      have notAtEnd : progress.cursor.isAtEnd = false := by simpa using inside
      rw [declarations_of_step_eq_ok notAtEnd found]
      exact .stepped notAtEnd found (ih ran)

theorem step_of_not_opensBlock {progress : Progress}
    (passed : progress.cursor.peek.opensBlock = false) :
    progress.step =
      .ok { progress with cursor := progress.cursor.advance 1 } := by
  rw [Token.opensBlock, Bool.or_eq_false_iff] at passed
  rw [step, if_neg (by simp [passed.1]), if_neg (by simp [passed.2])]

theorem step_of_universe {progress : Progress}
    (opens : progress.cursor.peek.isKeyword "universe" = true) :
    progress.step = .ok progress.compileUniverse := by
  rw [step, if_pos opens]

theorem not_universe_of_rulebase {progress : Progress}
    (opens : progress.cursor.peek.isKeyword "rulebase" = true) :
    ¬progress.cursor.peek.isKeyword "universe" = true := by
  rw [Token.eq_keyword_of_isKeyword opens]
  decide

theorem step_of_rulebase {progress : Progress}
    (opens : progress.cursor.peek.isKeyword "rulebase" = true) :
    progress.step =
      if progress.name ∈ progress.scope.rulebases then
        .error (.duplicateRulebase progress.name)
      else .ok progress.afterRulebase := by
  rw [step, if_neg (not_universe_of_rulebase opens), if_pos opens,
    compileRulebase_eq]

theorem step_eq_ok_cases {progress next : Progress}
    (stepped : progress.step = .ok next) :
    (progress.cursor.peek.isKeyword "universe" = true ∧
      next = progress.compileUniverse) ∨
    (progress.cursor.peek.isKeyword "rulebase" = true ∧
      progress.name ∉ progress.scope.rulebases ∧
        next = progress.afterRulebase) ∨
    (progress.cursor.peek.opensBlock = false ∧
      next = { progress with cursor := progress.cursor.advance 1 }) := by
  rw [step] at stepped
  split at stepped
  · next isUniverse =>
      cases stepped
      exact Or.inl ⟨isUniverse, rfl⟩
  · next notUniverse =>
      split at stepped
      · next isRulebase =>
          rw [compileRulebase_eq] at stepped
          split at stepped
          · cases stepped
          · next fresh =>
              cases stepped
              exact Or.inr (Or.inl ⟨isRulebase, fresh, rfl⟩)
      · next notRulebase =>
          cases stepped
          refine Or.inr (Or.inr ⟨?_, rfl⟩)
          rw [Token.opensBlock, Bool.or_eq_false_iff]
          exact ⟨by simpa using notUniverse, by simpa using notRulebase⟩

private theorem declared_of_universe {progress : Progress}
    (opens : progress.cursor.peek.isKeyword "universe" = true) :
    progress.declared =
      [.ofUniverse (Universe.read progress.scope progress.cursor).value] := by
  rw [declared, if_pos opens]

private theorem declared_of_rulebase {progress : Progress}
    (opens : progress.cursor.peek.isKeyword "rulebase" = true) :
    progress.declared =
      [.ofRulebase progress.claimed progress.rulebaseReading.value] := by
  rw [declared, if_neg (not_universe_of_rulebase opens), if_pos opens]

private theorem declared_of_not_opensBlock {progress : Progress}
    (passed : progress.cursor.peek.opensBlock = false) :
    progress.declared = [] := by
  rw [Token.opensBlock, Bool.or_eq_false_iff] at passed
  rw [declared, if_neg (by simp [passed.1]), if_neg (by simp [passed.2])]

theorem step_cases {progress next : Progress}
    (stepped : progress.step = .ok next) :
    (progress.declared =
      [.ofUniverse (Universe.read progress.scope progress.cursor).value] ∧
      next = progress.compileUniverse) ∨
    (progress.declared =
      [.ofRulebase progress.claimed progress.rulebaseReading.value] ∧
      progress.name ∉ progress.scope.rulebases ∧
        next = progress.afterRulebase) ∨
    (progress.declared = [] ∧
      next = { progress with cursor := progress.cursor.advance 1 }) := by
  obtain ⟨opens, isNext⟩ | ⟨opens, fresh, isNext⟩ | ⟨passed, isNext⟩ :=
    step_eq_ok_cases stepped
  · exact Or.inl ⟨declared_of_universe opens, isNext⟩
  · exact Or.inr (Or.inl ⟨declared_of_rulebase opens, fresh, isNext⟩)
  · exact Or.inr (Or.inr ⟨declared_of_not_opensBlock passed, isNext⟩)

theorem step_error_cases {progress : Progress} {error : CompileError}
    (failed : progress.step = .error error) :
    progress.cursor.peek.isKeyword "rulebase" = true ∧
      progress.name ∈ progress.scope.rulebases ∧
        error = .duplicateRulebase progress.name := by
  rw [step] at failed
  split at failed
  · cases failed
  · split at failed
    · next isRulebase =>
        rw [compileRulebase_eq] at failed
        split at failed
        · next repeated =>
            cases failed
            exact ⟨isRulebase, repeated, rfl⟩
        · cases failed
    · cases failed

/-! What a step adds, and from it what a run adds. -/

theorem step_lawful {progress next : Progress}
    (stepped : progress.step = .ok next) (lawful : progress.scope.Lawful) :
    next.scope.Lawful := by
  rcases step_cases stepped with ⟨_, rfl⟩ | ⟨_, _, rfl⟩ | ⟨_, rfl⟩
  · exact lawful.declare _ _
  · exact lawful.withRulebases _
  · exact lawful

theorem step_lines {progress next : Progress}
    (stepped : progress.step = .ok next) :
    next.lines.toList =
      progress.lines.toList ++ progress.declared.flatMap Declaration.lines := by
  rcases step_cases stepped with
    ⟨declared, rfl⟩ | ⟨declared, _, rfl⟩ | ⟨declared, rfl⟩
  · rw [declared, List.flatMap_singleton, compileUniverse,
      Array.toList_appendList]
    rfl
  · rw [declared, List.flatMap_singleton, afterRulebase,
      Array.toList_appendList]
    rfl
  · rw [declared, List.flatMap_nil, List.append_nil]

theorem step_universes {progress next : Progress}
    (stepped : progress.step = .ok next) :
    next.scope.universes =
      progress.scope.universes ++
        progress.declared.filterMap Declaration.universe? := by
  rcases step_cases stepped with
    ⟨declared, rfl⟩ | ⟨declared, _, rfl⟩ | ⟨declared, rfl⟩
  · rw [declared]
    rfl
  · rw [declared]
    exact (List.append_nil _).symm
  · rw [declared]
    exact (List.append_nil _).symm

theorem name_rulebaseReading (progress : Progress) :
    progress.rulebaseReading.value.name = progress.name := by
  rw [rulebaseReading, Rulebase.readBody]
  split <;> rfl

theorem id_rulebaseReading (progress : Progress) :
    progress.rulebaseReading.value.id = progress.scope.rulebases.length := by
  rw [rulebaseReading, Rulebase.readBody]
  split <;> rfl

theorem step_rulebases {progress next : Progress}
    (stepped : progress.step = .ok next) :
    next.scope.rulebases = progress.scope.rulebases ++
      (progress.declared.filterMap Declaration.rulebase?).map
        fun (_, rulebase) => rulebase.name := by
  rcases step_cases stepped with
    ⟨declared, rfl⟩ | ⟨declared, _, rfl⟩ | ⟨declared, rfl⟩
  · rw [declared]
    exact (List.append_nil _).symm
  · rw [declared]
    change _ ++ [progress.name] = _ ++ [progress.rulebaseReading.value.name]
    rw [name_rulebaseReading]
  · rw [declared]
    exact (List.append_nil _).symm

theorem declared_consistent (progress : Progress) :
    ∀ declaration ∈ progress.declared, declaration.Consistent := by
  have read : progress.rulebaseReading.value.consequent = none →
      progress.rulebaseReading.value.rules = [] := by
    rw [rulebaseReading, Rulebase.readBody]
    split
    · intro _
      rfl
    · intro found
      cases found
  rw [declared]
  split
  · exact List.forall_mem_singleton.mpr trivial
  · split
    · exact List.forall_mem_singleton.mpr read
    · exact List.forall_mem_nil _

theorem consistent_of_mem_declared {states : List Progress} :
    ∀ declaration ∈ states.flatMap declared, declaration.Consistent := by
  intro declaration member
  obtain ⟨state, _, isDeclared⟩ := List.mem_flatMap.mp member
  exact state.declared_consistent declaration isDeclared

theorem step_countKeyword {progress next : Progress}
    (inside : progress.cursor.isAtEnd = false)
    (stepped : progress.step = .ok next) (keyword : String) :
    (if progress.cursor.peek.isKeyword keyword then 1 else 0) +
        Token.countKeyword next.cursor.rest keyword ≤
      Token.countKeyword progress.cursor.rest keyword := by
  obtain ⟨n, moved⟩ := exists_cursor_of_step stepped
  cases rest : progress.cursor.rest with
  | nil => simp [Cursor.isAtEnd, rest] at inside
  | cons token others =>
      have shorter : Token.countKeyword (others.drop n) keyword ≤
          Token.countKeyword others keyword :=
        (List.drop_sublist n others).countP_le
      have first : Token.countKeyword (token :: others) keyword =
          Token.countKeyword others keyword +
            if token.isKeyword keyword then 1 else 0 :=
        List.countP_cons
      rw [moved, Cursor.advance_rest, Cursor.peek_of_rest rest, rest, first,
        Nat.add_comm 1 n, List.drop_succ_cons]
      omega

private theorem length_declared (progress : Progress) :
    (progress.declared.filterMap Declaration.universe?).length =
        (if progress.cursor.peek.isKeyword "universe" then 1 else 0) ∧
      (progress.declared.filterMap Declaration.rulebase?).length ≤
        (if progress.cursor.peek.isKeyword "rulebase" then 1 else 0) := by
  rw [declared]
  split
  · exact ⟨rfl, Nat.zero_le _⟩
  · split
    · exact ⟨rfl, Nat.le_refl 1⟩
    · exact ⟨rfl, Nat.le_refl 0⟩

/-- A part of a run: from one state to another, with the states between which
steps are taken. -/
inductive Reaches : Progress → List Progress → Progress → Prop where
  | here (progress : Progress) : Reaches progress [] progress
  | stepped {progress next finish : Progress} {passed : List Progress}
      (inside : progress.cursor.isAtEnd = false)
      (step : progress.step = .ok next)
      (others : Reaches next passed finish) :
        Reaches progress (progress :: passed) finish

namespace Reaches

variable {progress finish : Progress} {passed : List Progress}

theorem lines_eq (reaches : Reaches progress passed finish) :
    finish.lines.toList =
      progress.lines.toList ++
        (passed.flatMap declared).flatMap Declaration.lines := by
  induction reaches with
  | here => exact (List.append_nil _).symm
  | stepped inside step others ih =>
      rw [ih, step_lines step, List.flatMap_cons, List.flatMap_append,
        List.append_assoc]

theorem universes_eq (reaches : Reaches progress passed finish) :
    finish.scope.universes =
      progress.scope.universes ++
        (passed.flatMap declared).filterMap Declaration.universe? := by
  induction reaches with
  | here => exact (List.append_nil _).symm
  | stepped inside step others ih =>
      rw [ih, step_universes step, List.flatMap_cons, List.filterMap_append,
        List.append_assoc]

theorem rulebases_eq (reaches : Reaches progress passed finish) :
    finish.scope.rulebases = progress.scope.rulebases ++
      ((passed.flatMap declared).filterMap Declaration.rulebase?).map
        fun (_, rulebase) => rulebase.name := by
  induction reaches with
  | here => exact (List.append_nil _).symm
  | stepped inside step others ih =>
      rw [ih, step_rulebases step, List.flatMap_cons, List.filterMap_append,
        List.map_append, List.append_assoc]

theorem lawful (reaches : Reaches progress passed finish)
    (start : progress.scope.Lawful) : finish.scope.Lawful := by
  induction reaches with
  | here => exact start
  | stepped inside step others ih => exact ih (step_lawful step start)

theorem run_eq (reaches : Reaches progress passed finish) :
    progress.run = finish.run := by
  induction reaches with
  | here => rfl
  | stepped inside step others ih => rw [run_of_step_eq_ok inside step, ih]

theorem exists_cursor (reaches : Reaches progress passed finish) :
    ∃ n, finish.cursor = progress.cursor.advance n := by
  induction reaches with
  | here => exact ⟨0, rfl⟩
  | stepped inside step others ih =>
      obtain ⟨m, moved⟩ := exists_cursor_of_step step
      obtain ⟨n, stops⟩ := ih
      exact ⟨1 + m + n, by rw [stops, moved, Cursor.advance_advance]⟩

theorem cursor_eq {tokens : List Token}
    (reaches : Reaches (start tokens) passed finish) :
    finish.cursor =
      ⟨tokens.drop finish.cursor.position, finish.cursor.position⟩ := by
  obtain ⟨n, stops⟩ := reaches.exists_cursor
  rw [stops, Cursor.advance_position, start, Cursor.start, Nat.zero_add]
  simp [Cursor.advance]

/-- A part of a run can be parted at each state that it passes. -/
theorem split {before after : List Progress} {middle : Progress}
    (reaches : Reaches progress (before ++ middle :: after) finish) :
    Reaches progress before middle ∧
      Reaches middle (middle :: after) finish := by
  induction before generalizing progress with
  | nil =>
      cases reaches with
      | stepped inside step others =>
          exact ⟨.here _, .stepped inside step others⟩
  | cons first before ih =>
      cases reaches with
      | stepped inside step others =>
          obtain ⟨toMiddle, fromMiddle⟩ := ih others
          exact ⟨.stepped inside step toMiddle, fromMiddle⟩

end Reaches

theorem reaches_of_run_eq_ok {progress finish : Progress}
    (ran : progress.run = .ok finish) :
    Reaches progress progress.visits finish ∧ finish.cursor.isAtEnd = true := by
  fun_induction Progress.run progress with
  | case1 progress atEnd =>
      cases ran
      rw [visits_of_isAtEnd atEnd]
      exact ⟨.here _, atEnd⟩
  | case2 progress inside error failed => cases ran
  | case3 progress inside next found ih =>
      have notAtEnd : progress.cursor.isAtEnd = false := by simpa using inside
      obtain ⟨reaches, atEnd⟩ := ih ran
      rw [visits_of_step_eq_ok notAtEnd found]
      exact ⟨.stepped notAtEnd found reaches, atEnd⟩

theorem reaches_of_run_eq_error {progress : Progress} {failure : Failure}
    (failed : progress.run = .error failure) :
    ∃ passed, progress.visits = passed ++ [failure.progress] ∧
      Reaches progress passed failure.progress ∧
      failure.progress.cursor.isAtEnd = false ∧
      failure.progress.step = .error failure.error := by
  fun_induction Progress.run progress with
  | case1 progress atEnd => cases failed
  | case2 progress inside error found =>
      cases failed
      have notAtEnd : progress.cursor.isAtEnd = false := by simpa using inside
      exact ⟨[], visits_of_step_eq_error notAtEnd found, .here progress,
        notAtEnd, found⟩
  | case3 progress inside next found ih =>
      have notAtEnd : progress.cursor.isAtEnd = false := by simpa using inside
      obtain ⟨passed, visited, reaches, failsAt⟩ := ih failed
      refine ⟨progress :: passed, ?_, .stepped notAtEnd found reaches, failsAt⟩
      rw [visits_of_step_eq_ok notAtEnd found, visited]
      rfl

namespace Ran

variable {progress finish : Progress} {declarations : List Declaration}

theorem exists_reaches (ran : Ran progress declarations finish) :
    ∃ passed, Reaches progress passed finish ∧
      declarations = passed.flatMap declared := by
  induction ran with
  | finished atEnd => exact ⟨[], .here _, rfl⟩
  | @stepped progress next finish declarations inside step others ih =>
      obtain ⟨passed, reaches, rfl⟩ := ih
      exact ⟨progress :: passed, .stepped inside step reaches, rfl⟩

theorem lines_eq (ran : Ran progress declarations finish) :
    finish.lines.toList =
      progress.lines.toList ++ declarations.flatMap Declaration.lines := by
  obtain ⟨passed, reaches, rfl⟩ := ran.exists_reaches
  exact reaches.lines_eq

theorem universes_eq (ran : Ran progress declarations finish) :
    finish.scope.universes =
      progress.scope.universes ++
        declarations.filterMap Declaration.universe? := by
  obtain ⟨passed, reaches, rfl⟩ := ran.exists_reaches
  exact reaches.universes_eq

theorem rulebases_eq (ran : Ran progress declarations finish) :
    finish.scope.rulebases = progress.scope.rulebases ++
      (declarations.filterMap Declaration.rulebase?).map fun (_, rulebase) =>
        rulebase.name := by
  obtain ⟨passed, reaches, rfl⟩ := ran.exists_reaches
  exact reaches.rulebases_eq

theorem consistent (ran : Ran progress declarations finish) :
    ∀ declaration ∈ declarations, declaration.Consistent := by
  obtain ⟨passed, _, rfl⟩ := ran.exists_reaches
  exact consistent_of_mem_declared

/-- Every declaration has a keyword of its own. -/
theorem length_le (ran : Ran progress declarations finish) :
    (declarations.filterMap Declaration.universe?).length ≤
        Token.countKeyword progress.cursor.rest "universe" ∧
      (declarations.filterMap Declaration.rulebase?).length ≤
        Token.countKeyword progress.cursor.rest "rulebase" := by
  induction ran with
  | finished atEnd => exact ⟨Nat.zero_le _, Nat.zero_le _⟩
  | @stepped progress next finish declarations inside step others ih =>
      have declared := progress.length_declared
      have universes := step_countKeyword inside step "universe"
      have rulebases := step_countKeyword inside step "rulebase"
      rw [List.filterMap_append, List.filterMap_append, List.length_append,
        List.length_append]
      omega

end Ran

/-- Tokens between blocks leave no trace. -/
theorem run_pass {progress : Progress} {passed after : List Token}
    (rest : progress.cursor.rest = passed ++ after)
    (between : ∀ token ∈ passed, token.opensBlock = false) :
    progress.run =
      { progress with
        cursor := progress.cursor.advance passed.length : Progress }.run := by
  induction passed generalizing progress with
  | nil => rfl
  | cons token others ih =>
      have notOpening : progress.cursor.peek.opensBlock = false := by
        rw [Cursor.peek_of_rest rest]
        exact between token List.mem_cons_self
      have restAfter : (progress.cursor.advance 1).rest = others ++ after := by
        rw [Cursor.advance_rest, rest]
        rfl
      rw [run_of_step_eq_ok (Cursor.isAtEnd_of_rest rest)
          (step_of_not_opensBlock notOpening),
        ih restAfter fun other member =>
          between other (List.mem_cons_of_mem token member)]
      simp only [Cursor.advance_advance, List.length_cons, Nat.add_comm]

end Progress

theorem compile_of_run_eq_ok {tokens : List Token} {finish : Progress}
    (ran : (Progress.start tokens).run = .ok finish) :
    (compile tokens).result =
      .ok (Script.program (Token.countKeyword tokens "universe")
        (Token.countKeyword tokens "rulebase") finish.lines.toList) := by
  rw [compile, ran]

theorem exists_run_of_compile {tokens : List Token} {script : Script}
    (compiled : (compile tokens).result = .ok script) :
    ∃ finish, (Progress.start tokens).run = .ok finish ∧
      script = Script.program (Token.countKeyword tokens "universe")
        (Token.countKeyword tokens "rulebase") finish.lines.toList := by
  rw [compile] at compiled
  split at compiled
  · cases compiled
  · next finish ran =>
      cases compiled
      exact ⟨finish, ran, rfl⟩

theorem compile_of_run_eq_error {tokens : List Token}
    {failure : Progress.Failure}
    (failed : (Progress.start tokens).run = .error failure) :
    (compile tokens).result = .error failure.error := by
  rw [compile, failed]

theorem exists_failure_of_compile {tokens : List Token} {error : CompileError}
    (failed : (compile tokens).result = .error error) :
    ∃ stopped, (Progress.start tokens).run = .error ⟨error, stopped⟩ := by
  rw [compile] at failed
  split at failed
  · next failure ran =>
      cases failed
      exact ⟨failure.progress, ran⟩
  · cases failed

theorem compileSource_of_scan {source : String} {tokens : List Token}
    (scanned : Token.scan source = .ok tokens) :
    compileSource source =
      ((compile tokens).result.mapError .compile).map Script.text := by
  rw [compileSource, scanned]
  cases compiled : (compile tokens).result with
  | error error =>
      simp [Except.mapError, Except.map, bind, Except.bind, compiled]
  | ok script =>
      simp [Except.mapError, Except.map, bind, Except.bind, pure, Except.pure,
        compiled]

end FuzzyRules
