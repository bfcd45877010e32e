import FuzzyRules.Proofs.Compilation.Run
import FuzzyRules.Proofs.Script.Text

namespace FuzzyRules

/-! A reader that stops inside its tokens has not looked past them, so it reads
the same when more tokens follow. -/

namespace Cursor

def append (cursor : Cursor) (more : List Token) : Cursor :=
  ⟨cursor.rest ++ more, cursor.position⟩

/-- The position at which the tokens end. -/
def limit (cursor : Cursor) : Nat :=
  cursor.position + cursor.rest.length

section Append

variable {cursor : Cursor} {n : Nat} (more : List Token)

theorem peekNth_append (inside : n < cursor.rest.length) :
    (cursor.append more).peekNth n = cursor.peekNth n := by
  rw [peekNth, peekNth, append, List.getD_append _ _ _ _ inside]

theorem peek_append (inside : 0 < cursor.rest.length) :
    (cursor.append more).peek = cursor.peek :=
  peekNth_append more inside

theorem advance_append (inside : n ≤ cursor.rest.length) :
    (cursor.append more).advance n = (cursor.advance n).append more := by
  rw [advance, advance, append, append, List.drop_append_of_le_length inside]

theorem isAtEnd_append (inside : cursor.isAtEnd = false) :
    (cursor.append more).isAtEnd = false := by
  cases rest : cursor.rest with
  | nil => simp [isAtEnd, rest] at inside
  | cons token others => simp [isAtEnd, append, rest]

theorem mismatch_append (expected : String) (inside : 0 < cursor.rest.length) :
    (cursor.append more).mismatch expected = cursor.mismatch expected := by
  rw [mismatch, mismatch, peek_append more inside]
  rfl

end Append

theorem limit_advance {cursor : Cursor} {n : Nat}
    (inside : n ≤ cursor.rest.length) :
    (cursor.advance n).limit = cursor.limit := by
  simp only [limit, advance_position, advance_rest, List.length_drop]
  omega

theorem rest_length_advance_pos {cursor : Cursor} {n : Nat}
    (inside : n < cursor.rest.length) : 0 < (cursor.advance n).rest.length := by
  rw [advance_rest, List.length_drop]
  omega

/-- A cursor that stays inside its tokens is moved by no more than are left. -/
theorem le_length_of_le_limit {cursor stop : Cursor} {n : Nat}
    (stops : stop = cursor.advance n) (inside : stop.position ≤ cursor.limit) :
    n ≤ cursor.rest.length := by
  rw [stops, advance_position, limit] at inside
  omega

theorem add_le_length_of_le_limit {cursor stop : Cursor} {m n : Nat}
    (stops : stop = (cursor.advance m).advance n)
    (inside : stop.position ≤ cursor.limit) : m + n ≤ cursor.rest.length :=
  le_length_of_le_limit (stops.trans (advance_advance cursor m n)) inside

end Cursor

def Reading.append {α : Type} (reading : Reading α) (more : List Token) :
    Reading α :=
  { reading with cursor := reading.cursor.append more }

/-! Readers that stop inside their tokens. -/

section Readers

variable (more : List Token)

private theorem Element.readOne_append (universeName : String) {cursor : Cursor}
    (inside : 3 ≤ cursor.rest.length) :
    Element.readOne universeName (cursor.append more) =
      (Element.readOne universeName cursor).append more := by
  simp only [readOne, Reading.append, Cursor.peek,
    Cursor.advance_append more inside]
  rw [Cursor.peekNth_append more (by omega),
    Cursor.peekNth_append more (by omega),
    Cursor.peekNth_append more (by omega)]

/-- Elements go on up to a token that starts none, so that token has to be
inside too. -/
theorem Element.readAll_append (universeName : String) {cursor : Cursor}
    (inside : (Element.readAll universeName cursor).cursor.position <
      cursor.limit) :
    Element.readAll universeName (cursor.append more) =
      (Element.readAll universeName cursor).append more := by
  fun_induction Element.readAll universeName cursor with
  | case1 cursor literal first others ih =>
      obtain ⟨n, stops⟩ :=
        Element.exists_readAll_cursor universeName (cursor.advance 3)
      have enough : 3 ≤ cursor.rest.length := by
        change others.cursor = _ at stops
        simp only [stops, Cursor.advance_position, Cursor.limit] at inside
        omega
      have literalAppend : (cursor.append more).peek.kind = .literal := by
        rw [Cursor.peek_append more (by omega)]
        exact literal
      rw [Element.readAll, dif_pos literalAppend,
        Element.readOne_append more universeName enough,
        Cursor.advance_append more enough,
        ih (by rwa [Cursor.limit_advance enough])]
      rfl
  | case2 cursor notLiteral =>
      have notLiteralAppend : (cursor.append more).peek.kind ≠ .literal := by
        rw [Cursor.peek_append more (by simpa [Cursor.limit] using inside)]
        exact notLiteral
      rw [Element.readAll, dif_neg notLiteralAppend]
      rfl

private theorem Universe.read_append (scope : Scope) {cursor : Cursor}
    (inside : (Universe.read scope cursor).cursor.position ≤ cursor.limit) :
    Universe.read scope (cursor.append more) =
      (Universe.read scope cursor).append more := by
  obtain ⟨n, stops⟩ :=
    Element.exists_readAll_cursor (cursor.peekNth 1).value (cursor.advance 2)
  have enough : 2 + n + 1 ≤ cursor.rest.length := by
    apply Cursor.le_length_of_le_limit _ inside
    rw [← Cursor.advance_advance, ← Cursor.advance_advance, ← stops]
    rfl
  have name : (cursor.append more).peekNth 1 = cursor.peekNth 1 :=
    Cursor.peekNth_append more (by omega)
  have elements := Element.readAll_append more (cursor.peekNth 1).value
    (by
      rw [stops, Cursor.limit_advance (by omega)]
      simp only [Cursor.advance_position, Cursor.limit]
      omega : (Element.readAll (cursor.peekNth 1).value
        (cursor.advance 2)).cursor.position <
        (cursor.advance 2).limit)
  have left : 0 < ((cursor.advance 2).advance n).rest.length := by
    rw [Cursor.advance_advance]
    exact Cursor.rest_length_advance_pos (by omega)
  simp only [read, name,
    Cursor.advance_append more (show 2 ≤ cursor.rest.length by omega), elements,
    Reading.append, stops, Cursor.advance_append more left,
    Cursor.mismatch_append more "end" left]

private theorem Antecedent.readAll_append (consequent : String)
    {cursor : Cursor}
    (inside : (Antecedent.readAll consequent cursor).cursor.position ≤
      cursor.limit) :
    Antecedent.readAll consequent (cursor.append more) =
      (Antecedent.readAll consequent cursor).append more := by
  fun_induction Antecedent.readAll consequent cursor with
  | case1 cursor isEnd =>
      have enough : 1 ≤ cursor.rest.length :=
        Cursor.le_length_of_le_limit rfl inside
      have isEndAppend : (cursor.append more).peek.value = "end" := by
        rw [Cursor.peek_append more enough]
        exact isEnd
      rw [Antecedent.readAll_of_end consequent isEndAppend,
        Cursor.advance_append more enough]
      rfl
  | case2 cursor notEnd atEnd =>
      have enough : 1 ≤ cursor.rest.length :=
        Cursor.le_length_of_le_limit rfl inside
      rw [Cursor.isAtEnd, List.isEmpty_iff] at atEnd
      simp [atEnd] at enough
  | case3 cursor notEnd notAtEnd isAnd ih =>
      obtain ⟨n, stops⟩ :=
        Antecedent.exists_readAll_cursor consequent (cursor.advance 1)
      have enough := Cursor.add_le_length_of_le_limit stops inside
      have isAndAppend : (cursor.append more).peek.value = "and" := by
        rw [Cursor.peek_append more (by omega)]
        exact isAnd
      rw [Antecedent.readAll_of_and consequent
        (Cursor.isAtEnd_append more (by simpa using notAtEnd))
        isAndAppend, Cursor.advance_append more (by omega),
        ih (by rwa [Cursor.limit_advance (by omega)])]
  | case4 cursor notEnd notAtEnd notAnd others ih =>
      obtain ⟨n, stops⟩ :=
        Antecedent.exists_readAll_cursor consequent (cursor.advance 3)
      have enough := Cursor.add_le_length_of_le_limit stops inside
      have peek : (cursor.append more).peek = cursor.peek :=
        Cursor.peek_append more (by omega)
      have left : 0 < (cursor.advance 1).rest.length :=
        Cursor.rest_length_advance_pos (by omega)
      rw [Antecedent.readAll_of_subject consequent
        (Cursor.isAtEnd_append more (by simpa using notAtEnd)) (by rwa [peek])
          (by rwa [peek]), peek, Cursor.peekNth_append more (by omega),
        Cursor.advance_append more (by omega),
        Cursor.advance_append more (by omega),
        ih (by rwa [Cursor.limit_advance (by omega)]),
        Cursor.mismatch_append more "is" left]
      rfl

private theorem Rule.read_append {cursor : Cursor}
    (inside : (Rule.read cursor).cursor.position ≤ cursor.limit) :
    Rule.read (cursor.append more) = (Rule.read cursor).append more := by
  obtain ⟨n, stops⟩ := Rule.exists_read_cursor cursor
  have enough := Cursor.le_length_of_le_limit stops inside
  have consequent : (cursor.append more).peekNth 1 = cursor.peekNth 1 :=
    Cursor.peekNth_append more (by omega)
  have antecedents := Antecedent.readAll_append more (cursor.peekNth 1).value
    (by rwa [Cursor.limit_advance (show 3 ≤ cursor.rest.length by omega)] :
      (Antecedent.readAll (cursor.peekNth 1).value
        (cursor.advance 3)).cursor.position ≤
        (cursor.advance 3).limit)
  have left : 0 < (cursor.advance 2).rest.length :=
    Cursor.rest_length_advance_pos (by omega)
  simp only [read, consequent,
    Cursor.advance_append more (show 3 ≤ cursor.rest.length by omega),
    Cursor.advance_append more (show 2 ≤ cursor.rest.length by omega),
    antecedents, Reading.append, Cursor.mismatch_append more "when" left]

private theorem Rule.readAll_append (rulebase : String) {cursor : Cursor}
    (inside : (Rule.readAll rulebase cursor).cursor.position ≤ cursor.limit) :
    Rule.readAll rulebase (cursor.append more) =
      (Rule.readAll rulebase cursor).append more := by
  fun_induction Rule.readAll rulebase cursor with
  | case1 cursor isEnd =>
      have enough : 1 ≤ cursor.rest.length :=
        Cursor.le_length_of_le_limit rfl inside
      have isEndAppend : (cursor.append more).peek.value = "end" := by
        rw [Cursor.peek_append more enough]
        exact isEnd
      rw [Rule.readAll_of_end rulebase isEndAppend,
        Cursor.advance_append more enough]
      rfl
  | case2 cursor notEnd atEnd =>
      have enough : 1 ≤ cursor.rest.length :=
        Cursor.le_length_of_le_limit rfl inside
      rw [Cursor.isAtEnd, List.isEmpty_iff] at atEnd
      simp [atEnd] at enough
  | case3 cursor notEnd notAtEnd isRule first others ih =>
      obtain ⟨m, firstStops⟩ := Rule.exists_read_cursor cursor
      obtain ⟨n, stops⟩ := Rule.exists_readAll_cursor rulebase first.cursor
      have stopsAt : others.cursor = (cursor.advance (4 + m)).advance (1 + n) :=
        stops.trans (congrArg (Cursor.advance · (1 + n)) firstStops)
      have enough := Cursor.add_le_length_of_le_limit stopsAt inside
      have firstInside : first.cursor.position ≤ cursor.limit := by
        rw [show first.cursor = cursor.advance (4 + m) from firstStops,
          Cursor.advance_position, Cursor.limit]
        omega
      have isRuleAppend : (cursor.append more).peek.value = "rule" := by
        rw [Cursor.peek_append more (by omega)]
        exact isRule
      have sameLimit : first.cursor.limit = cursor.limit := by
        rw [show first.cursor = cursor.advance (4 + m) from firstStops]
        exact Cursor.limit_advance (by omega)
      rw [Rule.readAll_of_rule rulebase
        (Cursor.isAtEnd_append more (by simpa using notAtEnd))
        isRuleAppend, Rule.read_append more firstInside]
      simp only [Reading.append]
      rw [ih (by rwa [sameLimit])]
      rfl
  | case4 cursor notEnd notAtEnd notRule ih =>
      obtain ⟨n, stops⟩ :=
        Rule.exists_readAll_cursor rulebase (cursor.advance 1)
      have enough := Cursor.add_le_length_of_le_limit stops inside
      have peek : (cursor.append more).peek = cursor.peek :=
        Cursor.peek_append more (by omega)
      rw [Rule.readAll_of_other rulebase
        (Cursor.isAtEnd_append more (by simpa using notAtEnd))
        (by rwa [peek]) (by rwa [peek]), Cursor.advance_append more (by omega),
        ih (by rwa [Cursor.limit_advance (by omega)])]

private theorem Rulebase.readBody_append (scope : Scope) (id : Nat)
    {cursor : Cursor}
    (inside : (Rulebase.readBody scope id cursor).cursor.position ≤
      cursor.limit) :
    Rulebase.readBody scope id (cursor.append more) =
      (Rulebase.readBody scope id cursor).append more := by
  obtain ⟨n, stops⟩ := Rulebase.exists_readBody_cursor scope id cursor
  have enough := Cursor.le_length_of_le_limit stops inside
  have name : (cursor.append more).peekNth 1 = cursor.peekNth 1 :=
    Cursor.peekNth_append more (by omega)
  rw [readBody] at inside
  simp only [readBody, name,
    Cursor.advance_append more (show 2 ≤ cursor.rest.length by omega),
    Cursor.advance_append more (show 3 ≤ cursor.rest.length by omega)]
  cases found : scope.universeId? (cursor.peekNth 1).value with
  | none => rfl
  | some consequent =>
      rw [found] at inside
      have rules := Rule.readAll_append more (cursor.peekNth 1).value
        (by rwa [Cursor.limit_advance (show 2 ≤ cursor.rest.length by omega)] :
          (Rule.readAll (cursor.peekNth 1).value
            (cursor.advance 2)).cursor.position ≤
            (cursor.advance 2).limit)
      simp only [rules, Reading.append]

end Readers

namespace Progress

/-- A state and the same one with more tokens left to read. What was raised so
far is not compared: the first diagnostic tells how many tokens there are. -/
structure Extension (more : List Token) (short long : Progress) : Prop where
  cursor : long.cursor = short.cursor.append more
  scope : long.scope = short.scope
  lines : long.lines = short.lines

namespace Extension

variable {more : List Token} {short long next : Progress}

theorem start (first second : List Token) :
    Extension second (Progress.start first)
      (Progress.start (first ++ second)) :=
  ⟨rfl, rfl, rfl⟩

theorem name (extension : Extension more short long)
    (inside : 1 < short.cursor.rest.length) : long.name = short.name := by
  rw [Progress.name, Progress.name, extension.cursor,
    Cursor.peekNth_append more inside]

theorem claimed (extension : Extension more short long)
    (inside : 1 < short.cursor.rest.length) : long.claimed = short.claimed := by
  rw [Progress.claimed, Progress.claimed, extension.scope,
    extension.name inside]

theorem peek (extension : Extension more short long)
    (inside : 0 < short.cursor.rest.length) :
    long.cursor.peek = short.cursor.peek := by
  rw [extension.cursor, Cursor.peek_append more inside]

theorem compileUniverse (extension : Extension more short long)
    (inside : short.compileUniverse.cursor.position ≤ short.cursor.limit) :
    Extension more short.compileUniverse long.compileUniverse := by
  have reading := Universe.read_append more short.scope inside
  constructor
  · simp only [Progress.compileUniverse, extension.scope, extension.cursor,
      reading]
    rfl
  · simp only [Progress.compileUniverse, extension.scope, extension.cursor,
      reading]
    rfl
  · simp only [Progress.compileUniverse, extension.scope, extension.cursor,
      extension.lines, reading]
    rfl

theorem afterRulebase (extension : Extension more short long)
    (inside : short.afterRulebase.cursor.position ≤ short.cursor.limit)
    (named : 1 < short.cursor.rest.length) :
    Extension more short.afterRulebase long.afterRulebase := by
  have claimed := extension.claimed named
  have reading : long.rulebaseReading = short.rulebaseReading.append more := by
    rw [rulebaseReading, claimed, extension.scope, extension.cursor]
    exact Rulebase.readBody_append more short.claimed
      short.scope.rulebases.length inside
  constructor
  · simp only [Progress.afterRulebase, reading]
    rfl
  · exact claimed
  · simp only [Progress.afterRulebase, reading, claimed, extension.lines]
    rfl

/-- A step that ends inside the tokens is taken in front of more of them too. -/
theorem step (extension : Extension more short long)
    (stepped : short.step = .ok next)
    (inside : next.cursor.position ≤ short.cursor.limit) :
    ∃ longNext, long.step = .ok longNext ∧ Extension more next longNext := by
  obtain ⟨n, moved⟩ := exists_cursor_of_step stepped
  have enough := Cursor.le_length_of_le_limit moved inside
  have peek := extension.peek (by omega)
  obtain ⟨opens, rfl⟩ | ⟨opens, fresh, rfl⟩ | ⟨passed, rfl⟩ :=
    step_eq_ok_cases stepped
  · exact ⟨_, step_of_universe (by rwa [peek]),
      extension.compileUniverse inside⟩
  · obtain ⟨m, stops⟩ := Rulebase.exists_readBody_cursor short.claimed
      short.scope.rulebases.length short.cursor
    have named : 1 < short.cursor.rest.length := by
      have := Cursor.le_length_of_le_limit stops inside
      omega
    refine ⟨_, ?_, extension.afterRulebase inside named⟩
    rw [step_of_rulebase (by rwa [peek]), extension.name named, extension.scope,
      if_neg fresh]
  · refine ⟨_, step_of_not_opensBlock (by rwa [peek]), ?_, extension.scope,
      extension.lines⟩
    rw [extension.cursor]
    exact Cursor.advance_append more (by omega)

/-- The name of the block is all that a failing step looks at. -/
theorem step_eq_error {error : CompileError}
    (extension : Extension more short long) (failed : short.step = .error error)
    (named : 1 < short.cursor.rest.length) : long.step = .error error := by
  obtain ⟨isRulebase, repeated, rfl⟩ := step_error_cases failed
  rw [step_of_rulebase (by rwa [extension.peek (by omega)]),
    extension.name named, extension.scope, if_pos repeated]

theorem isAtEnd (extension : Extension more short long)
    (inside : short.cursor.isAtEnd = false) : long.cursor.isAtEnd = false := by
  rw [extension.cursor]
  exact Cursor.isAtEnd_append more inside

theorem reaches {finish : Progress} {passed : List Progress}
    (extension : Extension more short long)
    (reached : Reaches short passed finish)
    (inside : finish.cursor.position ≤ short.cursor.limit) :
    ∃ longPassed longFinish, Reaches long longPassed longFinish ∧
      Extension more finish longFinish := by
  induction reached generalizing long with
  | here => exact ⟨[], long, .here long, extension⟩
  | @stepped short next finish passed notAtEnd stepped others ih =>
      obtain ⟨m, moved⟩ := exists_cursor_of_step stepped
      obtain ⟨n, stops⟩ := others.exists_cursor
      have enough : 1 + m + n ≤ short.cursor.rest.length := by
        rw [moved] at stops
        exact Cursor.add_le_length_of_le_limit stops inside
      have nextInside : next.cursor.position ≤ short.cursor.limit := by
        rw [moved, Cursor.advance_position, Cursor.limit]
        omega
      have sameLimit : next.cursor.limit = short.cursor.limit := by
        rw [moved]
        exact Cursor.limit_advance (by omega)
      obtain ⟨longNext, longStepped, extended⟩ :=
        extension.step stepped nextInside
      obtain ⟨longPassed, longFinish, longReached, atFinish⟩ :=
        ih extended (by rwa [sameLimit])
      exact ⟨long :: longPassed, longFinish,
        .stepped (extension.isAtEnd notAtEnd) longStepped longReached, atFinish⟩

end Extension

/-- A state that a run reaches inside its tokens is reached in front of more of
them too. -/
theorem Reaches.append {first : List Token} {passed : List Progress}
    {finish : Progress} (reaches : Reaches (start first) passed finish)
    (inside : finish.cursor.position ≤ first.length) (second : List Token) :
    ∃ longPassed middle, Reaches (start (first ++ second)) longPassed middle ∧
      Extension second finish middle := by
  apply (Extension.start first second).reaches reaches
  rwa [Cursor.limit, start, Cursor.start, Nat.zero_add]

end Progress

open Script

/-- Later tokens never change what was made of earlier ones. If a run reads
`first` up to its very end, then in front of more tokens it comes to that place
with the same scope and lines, and the texts of the two programs agree from
their opening on up to it. If a run fails, at a rulebase keyword with a token
behind it, it fails so in front of more tokens too. -/
theorem compile_append (first second : List Token) :
    (∀ finish, (Progress.start first).run = .ok finish →
      finish.cursor.position = first.length →
      (∃ passed middle,
        Progress.Reaches (Progress.start (first ++ second)) passed middle ∧
        middle.cursor = ⟨second, first.length⟩ ∧ middle.scope = finish.scope ∧
        middle.lines = finish.lines) ∧
      (compile first).result.map text = .ok
        (text (opening (Token.countKeyword first "universe")
          (Token.countKeyword first "rulebase")) ++
          text finish.lines.toList ++ text closing) ∧
      ∀ script, (compile (first ++ second)).result = .ok script →
        ∃ later, text script =
          text (opening (Token.countKeyword (first ++ second) "universe")
            (Token.countKeyword (first ++ second) "rulebase")) ++
          text finish.lines.toList ++ later ++ text closing) ∧
    (∀ name stopped, (Progress.start first).run =
      .error ⟨.duplicateRulebase name, stopped⟩ →
      stopped.cursor.position + 1 < first.length →
      (compile first).result = .error (.duplicateRulebase name) ∧
        (compile (first ++ second)).result =
          .error (.duplicateRulebase name)) := by
  constructor
  · intro finish ran atLength
    obtain ⟨reaches, _⟩ := Progress.reaches_of_run_eq_ok ran
    obtain ⟨passed, middle, reached, extension⟩ :=
      reaches.append atLength.le second
    refine ⟨⟨passed, middle, reached, ?_, extension.scope, extension.lines⟩, ?_,
      ?_⟩
    · rw [extension.cursor, reaches.cursor_eq, atLength, List.drop_length]
      rfl
    · rw [compile_of_run_eq_ok ran, Except.map, program_eq, text_append,
        text_append]
    · intro script compiled
      obtain ⟨last, ranOn, rfl⟩ := exists_run_of_compile compiled
      rw [reached.run_eq] at ranOn
      obtain ⟨reachesLast, _⟩ := Progress.reaches_of_run_eq_ok ranOn
      refine ⟨text ((middle.visits.flatMap Progress.declared).flatMap
        Declaration.lines), ?_⟩
      rw [reachesLast.lines_eq, extension.lines, program_eq, text_append,
        text_append, text_append, ← String.append_assoc]
  · intro name stopped failed inside
    obtain ⟨_, _, reaches, notAtEnd, fails⟩ :=
      Progress.reaches_of_run_eq_error failed
    obtain ⟨_, middle, reached, extension⟩ :=
      reaches.append
        (show stopped.cursor.position ≤ first.length by omega) second
    have named : 1 < stopped.cursor.rest.length := by
      rw [reaches.cursor_eq, List.length_drop]
      exact Nat.lt_sub_of_add_lt (Nat.add_comm 1 _ ▸ inside)
    have failsOn : middle.run = .error ⟨.duplicateRulebase name, middle⟩ :=
      Progress.run_of_step_eq_error (extension.isAtEnd notAtEnd)
        (extension.step_eq_error fails named)
    exact ⟨compile_of_run_eq_error failed,
      compile_of_run_eq_error (reached.run_eq.trans failsOn)⟩

/-- A universe, and a rulebase of another name. -/
def unmatchedBlocks : List Token :=
  [.keyword "universe", ⟨.literal, "u"⟩, ⟨.literal, "a"⟩, ⟨.literal, "0"⟩,
    ⟨.literal, "1"⟩, .keyword "end", .keyword "rulebase", ⟨.literal, "w"⟩,
    .keyword "end"]

/-- The universe that would have matched comes too late for the rulebase. -/
def lateUniverse : List Token :=
  [.keyword "universe", ⟨.literal, "w"⟩, .keyword "end"]

def reclaimedBlocks : List Token :=
  unmatchedBlocks ++ [.keyword "rulebase", ⟨.literal, "w"⟩]

theorem compile_append_lateUniverse :
    (∃ finish passed middle, (Progress.start unmatchedBlocks).run = .ok finish ∧
      finish.cursor.position = unmatchedBlocks.length ∧
      Progress.Reaches (Progress.start (unmatchedBlocks ++ lateUniverse)) passed
        middle ∧
      middle.cursor = ⟨lateUniverse, unmatchedBlocks.length⟩ ∧
      middle.scope = finish.scope ∧
      ∃ later, (compile (unmatchedBlocks ++ lateUniverse)).result.map text =
        .ok (text (opening 2 1) ++ text finish.lines.toList ++ later ++
          text closing)) ∧
    (compile (reclaimedBlocks ++ lateUniverse)).result =
      .error (.duplicateRulebase "w") := by
  constructor
  · have position : (Progress.start unmatchedBlocks).run.toOption.map
        (fun finish => finish.cursor.position) =
          some unmatchedBlocks.length := by
      decide +kernel
    have compiles : (compile
        (unmatchedBlocks ++ lateUniverse)).result.toOption.isSome = true := by
      decide +kernel
    cases ran : (Progress.start unmatchedBlocks).run with
    | error failure => simp [ran, Except.toOption] at position
    | ok finish =>
        have atLength : finish.cursor.position = unmatchedBlocks.length := by
          simpa [ran, Except.toOption] using position
        obtain ⟨⟨passed, middle, reached, isMiddle, scope, _⟩, _, texts⟩ :=
          (compile_append unmatchedBlocks lateUniverse).1 finish ran atLength
        cases compiled : (compile (unmatchedBlocks ++ lateUniverse)).result with
        | error error => simp [compiled, Except.toOption] at compiles
        | ok script =>
            obtain ⟨later, written⟩ := texts script compiled
            exact ⟨finish, passed, middle, rfl, atLength, reached, isMiddle,
              scope, later, congrArg Except.ok written⟩
  · have failed : (compile reclaimedBlocks).result =
        .error (.duplicateRulebase "w") := by
      decide +kernel
    obtain ⟨stopped, ran⟩ := exists_failure_of_compile failed
    have position : (Progress.start reclaimedBlocks).visits.getLast?.map
        (fun last => last.cursor.position) = some 9 := by
      decide +kernel
    obtain ⟨passed, visits, _⟩ := Progress.reaches_of_run_eq_error ran
    have inside : stopped.cursor.position = 9 := by
      simpa [visits] using position
    exact ((compile_append reclaimedBlocks lateUniverse).2 "w" stopped ran
      (by rw [inside]; decide)).2

end FuzzyRules
