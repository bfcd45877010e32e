import FuzzyRules.Proofs.Compilation.Numbering

namespace FuzzyRules

/-! Loops stop at the end of the tokens, and what is read before and behind them
has a fixed length, so limits just past the end are never met. -/

structure Cursor.Within (tokens : List Token) (beyond : Nat) (cursor : Cursor) :
    Prop where
  rest_eq : cursor.rest = tokens.drop cursor.position
  position_le : cursor.position ≤ tokens.length + beyond

namespace Cursor.Within

variable {tokens : List Token} {beyond : Nat} {cursor : Cursor}

theorem start (tokens : List Token) : Within tokens 0 (Cursor.start tokens) :=
  ⟨rfl, Nat.zero_le _⟩

theorem mono (within : cursor.Within tokens beyond) {further : Nat}
    (le : beyond ≤ further) : cursor.Within tokens further :=
  ⟨within.rest_eq, within.position_le.trans (Nat.add_le_add_left le _)⟩

theorem advance (within : cursor.Within tokens beyond) (n : Nat) :
    (cursor.advance n).Within tokens (beyond + n) := by
  refine ⟨?_, ?_⟩
  · rw [advance_rest, advance_position, within.rest_eq, List.drop_drop]
  · have := within.position_le
    rw [advance_position]
    omega

theorem position_lt (within : cursor.Within tokens beyond)
    (inside : cursor.isAtEnd = false) : cursor.position < tokens.length := by
  rw [isAtEnd, within.rest_eq, List.isEmpty_eq_false_iff, ne_eq,
    List.drop_eq_nil_iff] at inside
  omega

theorem of_inside (within : cursor.Within tokens beyond)
    (inside : cursor.isAtEnd = false) : cursor.Within tokens 0 :=
  ⟨within.rest_eq, Nat.le_of_lt (within.position_lt inside)⟩

/-- From a token, what is passed over counts one less. -/
theorem advance_succ (within : cursor.Within tokens beyond)
    (inside : cursor.isAtEnd = false) (n : Nat) :
    (cursor.advance (n + 1)).Within tokens n := by
  refine ⟨(within.advance (n + 1)).rest_eq, ?_⟩
  have := within.position_lt inside
  rw [advance_position]
  omega

end Cursor.Within

section Within

variable {tokens : List Token} {beyond : Nat} {cursor : Cursor}

private theorem Element.readAll_within (universeName : String)
    (within : cursor.Within tokens 2) :
    (Element.readAll universeName cursor).cursor.Within tokens 2 := by
  fun_induction Element.readAll universeName cursor with
  | case1 cursor literal first others ih =>
      have inside : cursor.isAtEnd = false :=
        Cursor.isAtEnd_of_peek_ne_empty (by simp [literal])
      exact ih (within.advance_succ inside 2)
  | case2 cursor _ => exact within

private theorem Universe.read_within (scope : Scope)
    (within : cursor.Within tokens beyond) (inside : cursor.isAtEnd = false) :
    (Universe.read scope cursor).cursor.Within tokens 3 :=
  (Element.readAll_within _
    ((within.advance_succ inside 1).mono (by decide))).advance 1

private theorem Antecedent.readAll_within (consequent : String)
    (within : cursor.Within tokens 2) :
    (Antecedent.readAll consequent cursor).cursor.Within tokens 3 := by
  fun_induction Antecedent.readAll consequent cursor with
  | case1 cursor _ => exact within.advance 1
  | case2 cursor _ _ => exact within.advance 1
  | case3 cursor _ inside _ ih =>
      exact ih
        ((within.advance_succ (by simpa using inside) 0).mono (by decide))
  | case4 cursor _ inside _ _ ih =>
      exact ih (within.advance_succ (by simpa using inside) 2)

private theorem Rule.read_within (within : cursor.Within tokens beyond)
    (inside : cursor.isAtEnd = false) :
    (Rule.read cursor).cursor.Within tokens 3 :=
  Antecedent.readAll_within _ (within.advance_succ inside 2)

private theorem Rule.readAll_within (rulebase : String)
    (within : cursor.Within tokens 3) :
    (Rule.readAll rulebase cursor).cursor.Within tokens 4 := by
  fun_induction Rule.readAll rulebase cursor with
  | case1 cursor _ => exact within.advance 1
  | case2 cursor _ _ => exact within.advance 1
  | case3 cursor _ inside _ _ _ ih =>
      exact ih (Rule.read_within within (by simpa using inside))
  | case4 cursor _ inside _ ih =>
      exact ih
        ((within.advance_succ (by simpa using inside) 0).mono (by decide))

private theorem Rulebase.readBody_within (scope : Scope) (id : Nat)
    (within : cursor.Within tokens beyond) (inside : cursor.isAtEnd = false) :
    (Rulebase.readBody scope id cursor).cursor.Within tokens 4 := by
  rw [Rulebase.readBody]
  split
  · exact (within.advance_succ inside 2).mono (by decide)
  · exact Rule.readAll_within _
      ((within.advance_succ inside 1).mono (by decide))

end Within

/-! Supervised readers. They have access to the tokens by supervised reading and
moving only. -/

/-- The largest index at which a token may be read and the largest position of
the cursor. -/
structure Limits where
  index : Nat
  position : Nat

namespace Cursor

variable (limits : Limits) (cursor : Cursor)

def peekNth? (n : Nat) : Option Token :=
  if cursor.position + n ≤ limits.index then some (cursor.peekNth n) else none

def advance? (n : Nat) : Option Cursor :=
  if cursor.position + n ≤ limits.position then some (cursor.advance n)
  else none

def mismatch? (expected : String) : Option (List Diagnostic) := do
  let token ← cursor.peekNth? limits 0
  return if token.value = expected then []
    else [.unexpectedToken cursor.position expected token]

/-- Where the next turn of a loop may start after a turn that started at the
cursor. -/
def Precedes (next : Cursor) : Prop :=
  cursor.position < next.position ∧ next.position ≤ limits.position

instance (next : Cursor) : Decidable (cursor.Precedes limits next) :=
  inferInstanceAs (Decidable (_ ∧ _))

end Cursor

def Element.readAll? (limits : Limits) (universeName : String)
    (cursor : Cursor) :
    Option (Reading (List Element)) := do
  let token ← cursor.peekNth? limits 0
  if token.kind = .literal then
    let x ← cursor.peekNth? limits 1
    let y ← cursor.peekNth? limits 2
    let next ← cursor.advance? limits 3
    if _forward : cursor.Precedes limits next then
      let others ← Element.readAll? limits universeName next
      return {
        value := ⟨token.value, Coordinate.value x.value,
          Coordinate.value y.value⟩ :: others.value
        cursor := others.cursor
        diagnostics :=
          Coordinate.diagnostics universeName token.value x.value ++
          Coordinate.diagnostics universeName token.value y.value ++
            others.diagnostics }
    else none
  else return ⟨[], cursor, []⟩
termination_by limits.position - cursor.position
decreasing_by
  rw [Cursor.Precedes] at _forward
  omega

def Universe.read? (limits : Limits) (scope : Scope) (cursor : Cursor) :
    Option (Reading Universe) := do
  let name ← cursor.peekNth? limits 1
  let elements ← Element.readAll? limits name.value (← cursor.advance? limits 2)
  let mismatch ← elements.cursor.mismatch? limits "end"
  let declared := scope.newUniverse name.value elements.value
  return {
    value := declared
    cursor := ← elements.cursor.advance? limits 1
    diagnostics := elements.diagnostics ++ mismatch ++
      [.universeRead declared.id name.value elements.value.length] }

def Antecedent.readAll? (limits : Limits) (consequent : String)
    (cursor : Cursor) :
    Option (Reading (List Antecedent)) := do
  let token ← cursor.peekNth? limits 0
  if token.value = "end" then return ⟨[], ← cursor.advance? limits 1, []⟩
  else if cursor.isAtEnd then
    return ⟨[], ← cursor.advance? limits 1, [.unfinishedRule consequent]⟩
  else if token.value = "and" then
    let next ← cursor.advance? limits 1
    if _forward : cursor.Precedes limits next then
      Antecedent.readAll? limits consequent next
    else none
  else
    let connective ← cursor.advance? limits 1
    let mismatch ← connective.mismatch? limits "is"
    let condition ← connective.advance? limits 1
    let element ← condition.peekNth? limits 0
    let next ← condition.advance? limits 1
    if _forward : cursor.Precedes limits next then
      let others ← Antecedent.readAll? limits consequent next
      return {
        value := ⟨token.value, element.value⟩ :: others.value
        cursor := others.cursor
        diagnostics := mismatch ++ others.diagnostics }
    else none
termination_by limits.position - cursor.position
decreasing_by
  all_goals
    rw [Cursor.Precedes] at _forward
    omega

def Rule.read? (limits : Limits) (cursor : Cursor) : Option (Reading Rule) := do
  let consequent ← cursor.peekNth? limits 1
  let connective ← cursor.advance? limits 2
  let mismatch ← connective.mismatch? limits "when"
  let antecedents ← Antecedent.readAll? limits consequent.value
    (← connective.advance? limits 1)
  return {
    value := ⟨consequent.value, antecedents.value⟩
    cursor := antecedents.cursor
    diagnostics := mismatch ++ antecedents.diagnostics }

def Rule.readAll? (limits : Limits) (rulebase : String) (cursor : Cursor) :
    Option (Reading (List Rule)) := do
  let token ← cursor.peekNth? limits 0
  if token.value = "end" then return ⟨[], ← cursor.advance? limits 1, []⟩
  else if cursor.isAtEnd then
    return ⟨[], ← cursor.advance? limits 1, [.unfinishedRulebase rulebase]⟩
  else if token.value = "rule" then
    let first ← Rule.read? limits cursor
    if _forward : cursor.Precedes limits first.cursor then
      let others ← Rule.readAll? limits rulebase first.cursor
      return {
        value := first.value :: others.value
        cursor := others.cursor
        diagnostics := first.diagnostics ++ others.diagnostics }
    else none
  else
    let next ← cursor.advance? limits 1
    if _forward : cursor.Precedes limits next then
      Rule.readAll? limits rulebase next
    else none
termination_by limits.position - cursor.position
decreasing_by
  all_goals
    rw [Cursor.Precedes] at _forward
    omega

def Rulebase.readBody? (limits : Limits) (scope : Scope) (id : Nat)
    (cursor : Cursor) :
    Option (Reading Rulebase) := do
  let name ← cursor.peekNth? limits 1
  match scope.universeId? name.value with
  | none =>
      return ⟨⟨id, name.value, none, []⟩, ← cursor.advance? limits 3,
        [.unmatchedRulebase name.value]⟩
  | some consequent =>
      let rules ← Rule.readAll? limits name.value (← cursor.advance? limits 2)
      return {
        value := ⟨id, name.value, some consequent, rules.value⟩
        cursor := rules.cursor
        diagnostics := rules.diagnostics ++
          [.rulebaseRead id name.value consequent rules.value.length] }

/-- The limits are not met before four tokens past the end. -/
structure Limits.Allow (limits : Limits) (tokens : List Token) : Prop where
  index : tokens.length + 3 ≤ limits.index
  position : tokens.length + 4 ≤ limits.position

section Allowed

variable {limits : Limits} {tokens : List Token} {cursor : Cursor}
  {beyond : Nat}

theorem Cursor.Within.peekNth? (within : cursor.Within tokens beyond)
    (allow : limits.Allow tokens) {n : Nat} (near : beyond + n ≤ 3) :
    cursor.peekNth? limits n = some (cursor.peekNth n) := by
  have := within.position_le
  have := allow.index
  rw [Cursor.peekNth?, if_pos (by omega)]

theorem Cursor.Within.advance? (within : cursor.Within tokens beyond)
    (allow : limits.Allow tokens) {n : Nat} (near : beyond + n ≤ 4) :
    cursor.advance? limits n = some (cursor.advance n) := by
  have := within.position_le
  have := allow.position
  rw [Cursor.advance?, if_pos (by omega)]

theorem Cursor.Within.peek? (within : cursor.Within tokens beyond)
    (allow : limits.Allow tokens) (near : beyond ≤ 3) :
    cursor.peekNth? limits 0 = some cursor.peek :=
  within.peekNth? allow near

theorem Cursor.Within.mismatch? (within : cursor.Within tokens beyond)
    (allow : limits.Allow tokens) (near : beyond ≤ 3) (expected : String) :
    cursor.mismatch? limits expected = some (cursor.mismatch expected) := by
  rw [Cursor.mismatch?, within.peek? allow near]
  rfl

theorem Cursor.Within.precedes (within : cursor.Within tokens beyond)
    (allow : limits.Allow tokens) {n : Nat} (forward : 0 < n)
    (near : beyond + n ≤ 4) : cursor.Precedes limits (cursor.advance n) := by
  have := within.position_le
  have := allow.position
  rw [Cursor.Precedes, Cursor.advance_position]
  omega

private theorem Cursor.peek_advance (cursor : Cursor) (n : Nat) :
    (cursor.advance n).peek = cursor.peekNth n := by
  simp [peek, peekNth]

theorem Antecedent.readAll?_eq (allow : limits.Allow tokens)
    (consequent : String) (within : cursor.Within tokens 2) :
    Antecedent.readAll? limits consequent cursor =
      some (Antecedent.readAll consequent cursor) := by
  fun_induction Antecedent.readAll consequent cursor with
  | case1 cursor isEnd =>
      rw [Antecedent.readAll?, within.peek? allow (by decide),
        within.advance? allow (by decide)]
      simp [isEnd]
  | case2 cursor notEnd atEnd =>
      rw [Antecedent.readAll?, within.peek? allow (by decide),
        within.advance? allow (by decide)]
      simp [notEnd, atEnd]
  | case3 cursor notEnd inside isAnd ih =>
      have here := within.of_inside (by simpa using inside)
      rw [Antecedent.readAll?, here.peek? allow (by decide),
        here.advance? allow (by decide)]
      simp [inside, isAnd, here.precedes allow,
        ih ((here.advance 1).mono (by decide))]
  | case4 cursor notEnd inside notAnd others ih =>
      have inside : cursor.isAtEnd = false := by simpa using inside
      have here := within.of_inside inside
      have element := cursor.peek_advance 2
      rw [Antecedent.readAll?, here.peek? allow (by decide),
        here.advance? allow (by decide)]
      simp [notEnd, inside, notAnd, (here.advance 1).mismatch? allow,
        (here.advance 1).advance? allow, (here.advance 2).peek? allow,
        (here.advance 2).advance? allow, here.precedes allow,
        ih (here.advance_succ inside 2), element, others]

private theorem Rule.position_lt_read (cursor : Cursor) :
    cursor.position < (Rule.read cursor).cursor.position := by
  obtain ⟨n, moved⟩ := Rule.exists_read_cursor cursor
  rw [moved, Cursor.advance_position]
  omega

theorem Rule.read?_eq (allow : limits.Allow tokens)
    (within : cursor.Within tokens beyond) (inside : cursor.isAtEnd = false) :
    Rule.read? limits cursor = some (Rule.read cursor) := by
  have here := within.of_inside inside
  have antecedents := Antecedent.readAll?_eq allow (cursor.peekNth 1).value
    (here.advance_succ inside 2)
  rw [Rule.read?, here.peekNth? allow (by decide),
    here.advance? allow (by decide)]
  simp [(here.advance 2).mismatch? allow, (here.advance 2).advance? allow,
    antecedents, Rule.read]

theorem Rule.readAll?_eq (allow : limits.Allow tokens) (rulebase : String)
    (within : cursor.Within tokens 3) :
    Rule.readAll? limits rulebase cursor =
      some (Rule.readAll rulebase cursor) := by
  fun_induction Rule.readAll rulebase cursor with
  | case1 cursor isEnd =>
      rw [Rule.readAll?, within.peek? allow (by decide),
        within.advance? allow (by decide)]
      simp [isEnd]
  | case2 cursor notEnd atEnd =>
      rw [Rule.readAll?, within.peek? allow (by decide),
        within.advance? allow (by decide)]
      simp [notEnd, atEnd]
  | case3 cursor notEnd inside isRule first others ih =>
      have inside : cursor.isAtEnd = false := by simpa using inside
      have here := within.of_inside inside
      have behind := Rule.read_within within inside
      have forward : cursor.Precedes limits (Rule.read cursor).cursor :=
        ⟨Rule.position_lt_read cursor,
          behind.position_le.trans (Nat.le_of_succ_le allow.position)⟩
      have rules : Rule.readAll? limits rulebase (Rule.read cursor).cursor =
          some (Rule.readAll rulebase (Rule.read cursor).cursor) := ih behind
      rw [Rule.readAll?, here.peek? allow (by decide),
        Rule.read?_eq allow here inside]
      simp [inside, isRule, forward, rules, first, others]
  | case4 cursor notEnd inside notRule ih =>
      have inside : cursor.isAtEnd = false := by simpa using inside
      have here := within.of_inside inside
      rw [Rule.readAll?, here.peek? allow (by decide),
        here.advance? allow (by decide)]
      simp [notEnd, inside, notRule, here.precedes allow,
        ih ((here.advance 1).mono (by decide))]

theorem Element.readAll?_eq (allow : limits.Allow tokens)
    (universeName : String) (within : cursor.Within tokens 2) :
    Element.readAll? limits universeName cursor =
      some (Element.readAll universeName cursor) := by
  fun_induction Element.readAll universeName cursor with
  | case1 cursor literal first others ih =>
      have inside : cursor.isAtEnd = false :=
        Cursor.isAtEnd_of_peek_ne_empty (by simp [literal])
      have here := within.of_inside inside
      rw [Element.readAll?, here.peek? allow (by decide),
        here.peekNth? allow (by decide), here.peekNth? allow (by decide),
        here.advance? allow (by decide)]
      simp [literal, here.precedes allow, ih (here.advance_succ inside 2),
        first, others, Element.readOne]
  | case2 cursor other =>
      rw [Element.readAll?, within.peek? allow (by decide)]
      simp [other]

theorem Universe.read?_eq (allow : limits.Allow tokens) (scope : Scope)
    (within : cursor.Within tokens beyond) (inside : cursor.isAtEnd = false) :
    Universe.read? limits scope cursor = some (Universe.read scope cursor) := by
  have here := within.of_inside inside
  have body : (cursor.advance 2).Within tokens 2 := here.advance 2
  have elements := Element.readAll_within (cursor.peekNth 1).value body
  rw [Universe.read?, here.peekNth? allow (by decide),
    here.advance? allow (by decide)]
  simp [Element.readAll?_eq allow _ body, elements.mismatch? allow,
    elements.advance? allow, Universe.read]

theorem Rulebase.readBody?_eq (allow : limits.Allow tokens) (scope : Scope)
    (id : Nat) (within : cursor.Within tokens beyond)
    (inside : cursor.isAtEnd = false) :
    Rulebase.readBody? limits scope id cursor =
      some (Rulebase.readBody scope id cursor) := by
  have here := within.of_inside inside
  have body : (cursor.advance 2).Within tokens 3 :=
    (here.advance 2).mono (by decide)
  rw [Rulebase.readBody?, here.peekNth? allow (by decide)]
  cases matched : scope.universeId? (cursor.peekNth 1).value with
  | none => simp [Rulebase.readBody, matched, here.advance? allow]
  | some consequent =>
      simp [Rulebase.readBody, matched, here.advance? allow,
        Rule.readAll?_eq allow _ body]

end Allowed

def Rulebase.read? (limits : Limits) (scope : Scope) (cursor : Cursor) :
    Option (Except CompileError (Scope × Reading Rulebase)) := do
  let name ← cursor.peekNth? limits 1
  match scope.claim name.value with
  | .error error => return .error error
  | .ok (id, claimed) =>
      return .ok (claimed, ← Rulebase.readBody? limits claimed id cursor)

namespace Progress

variable (limits : Limits) (progress : Progress)

def compileUniverse? : Option Progress := do
  let reading ← Universe.read? limits progress.scope progress.cursor
  let u := reading.value
  return {
    cursor := reading.cursor
    scope := progress.scope.declare u.name u.elements
    lines := progress.lines ++ u.lines
    diagnostics := progress.diagnostics ++ reading.diagnostics }

def compileRulebase? : Option (Except CompileError Progress) := do
  match ← Rulebase.read? limits progress.scope progress.cursor with
  | .error error => return .error error
  | .ok (scope, reading) =>
      let rulebase := reading.value
      return .ok {
        cursor := reading.cursor
        scope := scope
        lines := progress.lines ++ rulebase.lines scope
        diagnostics :=
          progress.diagnostics ++
            (reading.diagnostics ++ rulebase.unresolved scope) }

/-- A step that does not fail must move the cursor forward by as many tokens. -/
def movedBy? (least : Nat) :
    Except CompileError Progress → Option (Except CompileError Progress)
  | .error error => some (.error error)
  | .ok next =>
      if progress.position + least ≤ next.position then some (.ok next)
      else none

def step? : Option (Except CompileError Progress) := do
  let token ← progress.cursor.peekNth? limits 0
  let outcome ←
    if token.isKeyword "universe" then
      (progress.compileUniverse? limits).map .ok
    else if token.isKeyword "rulebase" then progress.compileRulebase? limits
    else (progress.cursor.advance? limits 1).map fun cursor =>
      .ok { progress with cursor := cursor }
  progress.movedBy? (if token.opensBlock then 3 else 1) outcome

def run? : Nat → Progress → Option (Except Failure Progress)
  | steps, progress =>
    if progress.cursor.isAtEnd then some (.ok progress)
    else
      match steps with
      | 0 => none
      | steps + 1 => do
          match ← progress.step? limits with
          | .error error => return .error ⟨error, progress⟩
          | .ok next => run? steps next

end Progress

def compile? (limits : Limits) (tokens : List Token) : Option Compilation := do
  match ← Progress.run? limits tokens.length (.start tokens) with
  | .error failure =>
      return {
        result := .error failure.error
        diagnostics :=
          failure.progress.diagnostics.toList ++ [.failure failure.error] }
  | .ok finish =>
      return {
        result := .ok (Script.program (Token.countKeyword tokens "universe")
          (Token.countKeyword tokens "rulebase") finish.lines.toList)
        diagnostics := finish.diagnostics.toList }

namespace Progress

variable {limits : Limits} {tokens : List Token} {beyond : Nat}
  {progress next : Progress}

private theorem position_of_step (stepped : progress.step = .ok next) :
    progress.position + (if progress.cursor.peek.opensBlock then 3 else 1) ≤
      next.position := by
  have opens {keyword : String}
      (isKeyword : progress.cursor.peek.isKeyword keyword = true)
      (isBlock : keyword = "universe" ∨ keyword = "rulebase") :
      progress.cursor.peek.opensBlock = true := by
    rcases isBlock with rfl | rfl <;> simp [Token.opensBlock, isKeyword]
  rcases step_eq_ok_cases stepped with
    ⟨isUniverse, rfl⟩ | ⟨isRulebase, _, rfl⟩ | ⟨other, rfl⟩
  · obtain ⟨n, moved⟩ :=
      Universe.exists_read_cursor progress.scope progress.cursor
    rw [if_pos (opens isUniverse (by simp)), position, position,
      compileUniverse, moved, Cursor.advance_position]
    omega
  · obtain ⟨n, moved⟩ := Rulebase.exists_readBody_cursor progress.claimed
      progress.scope.rulebases.length progress.cursor
    rw [if_pos (opens isRulebase (by simp)), position, position, afterRulebase,
      rulebaseReading, moved, Cursor.advance_position]
    omega
  · rw [other]
    exact Nat.le_refl _

theorem step_within (within : progress.cursor.Within tokens beyond)
    (inside : progress.cursor.isAtEnd = false)
    (stepped : progress.step = .ok next) : next.cursor.Within tokens 4 := by
  rcases step_eq_ok_cases stepped with ⟨_, rfl⟩ | ⟨_, _, rfl⟩ | ⟨_, rfl⟩
  · exact (Universe.read_within progress.scope within inside).mono (by decide)
  · exact Rulebase.readBody_within _ _ within inside
  · exact (within.advance_succ inside 0).mono (by decide)

private theorem length_visits_le (progress : Progress) :
    progress.visits.length ≤ progress.cursor.rest.length := by
  fun_induction visits progress with
  | case1 progress atEnd => exact Nat.zero_le _
  | case2 progress inside error failed =>
      rw [List.length_singleton, Nat.succ_le_iff, List.length_pos_iff]
      rintro empty
      simp [Cursor.isAtEnd, empty] at inside
  | case3 progress inside next stepped ih =>
      exact Nat.lt_of_le_of_lt ih
        (rest_length_lt_of_step (by simpa using inside) stepped)

theorem Reaches.within {passed : List Progress} {finish : Progress}
    (reaches : Reaches progress passed finish)
    (within : progress.cursor.Within tokens 4) :
    finish.cursor.Within tokens 4 := by
  induction reaches with
  | here => exact within
  | stepped inside step others ih => exact ih (step_within within inside step)

theorem movedBy?_eq {least : Nat} {outcome : Except CompileError Progress}
    (moved : ∀ next, outcome = .ok next →
      progress.position + least ≤ next.position) :
    progress.movedBy? least outcome = some outcome := by
  cases outcome with
  | error error => rfl
  | ok next => exact if_pos (moved next rfl)

theorem compileUniverse?_eq (allow : limits.Allow tokens)
    (within : progress.cursor.Within tokens beyond)
    (inside : progress.cursor.isAtEnd = false) :
    progress.compileUniverse? limits = some progress.compileUniverse := by
  rw [compileUniverse?, Universe.read?_eq allow _ within inside]
  rfl

theorem compileRulebase?_eq (allow : limits.Allow tokens)
    (within : progress.cursor.Within tokens beyond)
    (inside : progress.cursor.isAtEnd = false) :
    progress.compileRulebase? limits = some progress.compileRulebase := by
  have here := within.of_inside inside
  rw [compileRulebase?, Rulebase.read?, here.peekNth? allow (by decide),
    compileRulebase, Rulebase.read]
  cases claim : progress.scope.claim (progress.cursor.peekNth 1).value with
  | error error => simp [claim, Except.map]
  | ok claimed =>
      simp [claim, Except.map, Rulebase.readBody?_eq allow _ _ within inside]

theorem step?_eq (allow : limits.Allow tokens)
    (within : progress.cursor.Within tokens beyond)
    (inside : progress.cursor.isAtEnd = false) :
    progress.step? limits = some progress.step := by
  have here := within.of_inside inside
  have moved (next) (stepped : progress.step = .ok next) :=
    position_of_step stepped
  rw [step?, here.peek? allow (by decide),
    compileUniverse?_eq allow within inside,
    compileRulebase?_eq allow within inside, here.advance? allow (by decide)]
  refine Eq.trans ?_ (movedBy?_eq moved)
  by_cases isUniverse : progress.cursor.peek.isKeyword "universe" = true
  · simp [step, isUniverse]
  · by_cases isRulebase : progress.cursor.peek.isKeyword "rulebase" = true
    · simp [step, isUniverse, isRulebase]
    · simp [step, isUniverse, isRulebase]

theorem run?_eq (allow : limits.Allow tokens) {steps : Nat}
    (within : progress.cursor.Within tokens beyond)
    (enough : progress.cursor.rest.length ≤ steps) :
    run? limits steps progress = some progress.run := by
  induction steps generalizing progress beyond with
  | zero =>
      have atEnd : progress.cursor.isAtEnd = true := by
        rw [Cursor.isAtEnd, List.isEmpty_iff_length_eq_zero]
        exact Nat.le_zero.mp enough
      rw [run?, if_pos atEnd, run_of_isAtEnd atEnd]
  | succ steps ih =>
      rw [run?]
      split
      · next atEnd => rw [run_of_isAtEnd atEnd]
      · next inside =>
          have inside : progress.cursor.isAtEnd = false := by simpa using inside
          rw [step?_eq allow within inside]
          cases stepped : progress.step with
          | error error =>
              rw [run_of_step_eq_error inside stepped]
              rfl
          | ok next =>
              have shorter := rest_length_lt_of_step inside stepped
              rw [run_of_step_eq_ok inside stepped]
              exact ih (step_within within inside stepped) (by omega)

end Progress

theorem compile?_eq {limits : Limits} {tokens : List Token}
    (allow : limits.Allow tokens) :
    compile? limits tokens = some (compile tokens) := by
  have ran : Progress.run? limits tokens.length (.start tokens) =
      some (Progress.start tokens).run :=
    Progress.run?_eq allow (.start tokens) (Nat.le_refl _)
  rw [compile?, ran, compile]
  cases (Progress.start tokens).run with
  | error failure => rfl
  | ok finish => rfl

/-- A compilation reads no token at an index of more than three past the number
of tokens and does not move its cursor to a position of more than four past it;
every turn of a loop moves the cursor forward, and a run has no more steps than
there are tokens. All positions and indices fit into 64 bits. -/
theorem compile_within_limits (tokens : List Token) :
    compile? ⟨tokens.length + 3, tokens.length + 4⟩ tokens =
      some (compile tokens) ∧
    (tokens.length ≤ 2 ^ 64 - 5 →
      compile? ⟨2 ^ 64 - 1, 2 ^ 64 - 1⟩ tokens = some (compile tokens)) ∧
    (Progress.start tokens).visits.length ≤ tokens.length ∧
    (∀ passed finish, Progress.Reaches (.start tokens) passed finish →
      finish.position ≤ tokens.length + 4) ∧
    ∀ progress next : Progress, progress.step = .ok next →
      progress.position + (if progress.cursor.peek.opensBlock then 3 else 1) ≤
        next.position := by
  refine ⟨compile?_eq ⟨Nat.le_refl _, Nat.le_refl _⟩, fun short => ?_,
    Progress.length_visits_le (.start tokens), fun passed finish reaches => ?_,
    fun progress next => Progress.position_of_step⟩
  · exact compile?_eq ⟨by dsimp only; omega, by dsimp only; omega⟩
  · exact (reaches.within
      ((Cursor.Within.start tokens).mono (Nat.zero_le 4))).position_le

/-- The last token opens a rule, so the rule and its rulebase are closed past
the end. -/
def overshooting : List Token :=
  [.keyword "universe", ⟨.literal, "u"⟩, .keyword "end", .keyword "rulebase",
    ⟨.literal, "u"⟩, .keyword "rule"]

theorem compile_within_limits_overshooting :
    compile? ⟨9, 10⟩ overshooting = some (compile overshooting) ∧
    compile? ⟨8, 10⟩ overshooting = none ∧
    compile? ⟨9, 9⟩ overshooting = none ∧
    compile? ⟨2 ^ 64 - 1, 2 ^ 64 - 1⟩ overshooting =
      some (compile overshooting) ∧
    (∃ finish, Progress.Reaches (.start overshooting)
      (Progress.start overshooting).visits finish ∧
      finish.position = 10 ∧ finish.position ≤ overshooting.length + 4) ∧
    ∃ next, (Progress.start overshooting).step = .ok next ∧
      0 + 3 ≤ next.position := by
  obtain ⟨within, short, _, reached, stepped⟩ :=
    compile_within_limits overshooting
  have first : (Progress.start overshooting).step =
      .ok (Progress.start overshooting).compileUniverse :=
    Progress.step_of_universe rfl
  have last : (Progress.start overshooting).run.toOption.map Progress.position =
      some 10 := by
    decide +kernel
  cases ran : (Progress.start overshooting).run with
  | error failure =>
      rw [ran] at last
      cases last
  | ok finish =>
      rw [ran] at last
      obtain ⟨reaches, _⟩ := Progress.reaches_of_run_eq_ok ran
      exact ⟨within, Option.isNone_iff_eq_none.mp (by decide +kernel),
        Option.isNone_iff_eq_none.mp (by decide +kernel), short (by decide),
        ⟨finish, reaches, Option.some_inj.mp last, reached _ _ reaches⟩,
        ⟨_, first, stepped _ _ first⟩⟩

end FuzzyRules
