import FuzzyRules.Proofs.Compilation.Extension
import FuzzyRules.Proofs.Rulebase.Clauses

namespace FuzzyRules

/-! Readers look at the tokens before them and not at their position, so runs
that have come to the same tokens go on alike. -/

namespace Cursor

variable {first second : Cursor} (same : first.rest = second.rest)

include same

theorem peekNth_congr (n : Nat) : first.peekNth n = second.peekNth n :=
  peekNth_of_rest same n

theorem peek_congr : first.peek = second.peek :=
  peekNth_congr same 0

private theorem isAtEnd_congr : first.isAtEnd = second.isAtEnd :=
  congrArg List.isEmpty same

theorem rest_advance_congr (n : Nat) :
    (first.advance n).rest = (second.advance n).rest :=
  congrArg (List.drop n) same

end Cursor

/-- Two readings of the same value that end before the same tokens. -/
structure Reading.Agrees {α : Type} (first second : Reading α) : Prop where
  value : first.value = second.value
  rest : first.cursor.rest = second.cursor.rest

private theorem Element.readAll_agrees (universeName : String)
    (first : Cursor) :
    ∀ second : Cursor, first.rest = second.rest →
      (Element.readAll universeName first).Agrees
        (Element.readAll universeName second) := by
  fun_induction Element.readAll universeName first with
  | case1 first literal element others ih =>
      intro second same
      have secondLiteral : second.peek.kind = .literal :=
        Cursor.peek_congr same ▸ literal
      have elements : element.value =
          (Element.readOne universeName second).value := by
        simp only [element, readOne, Cursor.peek_congr same,
          Cursor.peekNth_congr same]
      obtain ⟨values, rest⟩ := ih _ (Cursor.rest_advance_congr same 3)
      rw [Element.readAll, dif_pos secondLiteral]
      exact ⟨congrArg₂ List.cons elements values, rest⟩
  | case2 first notLiteral =>
      intro second same
      have secondNotLiteral : second.peek.kind ≠ .literal :=
        Cursor.peek_congr same ▸ notLiteral
      rw [Element.readAll, dif_neg secondNotLiteral]
      exact ⟨rfl, same⟩

private theorem Universe.read_agrees (scope : Scope) {first second : Cursor}
    (same : first.rest = second.rest) :
    (Universe.read scope first).Agrees (Universe.read scope second) := by
  have name := Cursor.peekNth_congr same 1
  obtain ⟨values, rest⟩ := Element.readAll_agrees (second.peekNth 1).value _ _
    (Cursor.rest_advance_congr same 2)
  rw [Universe.read, Universe.read, name]
  exact ⟨congrArg (scope.newUniverse _) values,
    Cursor.rest_advance_congr rest 1⟩

private theorem Rule.read_agrees {first second : Cursor}
    (same : first.rest = second.rest) :
    (Rule.read first).Agrees (Rule.read second) := by
  obtain ⟨value, ⟨n, moved, otherMoved⟩, -⟩ :=
    Rule.read_parallel (congrArg (List.map Token.value) same)
  refine ⟨value, ?_⟩
  rw [moved, otherMoved]
  exact Cursor.rest_advance_congr same n

private theorem Rule.readAll_agrees (rulebase : String) (first : Cursor) :
    ∀ second : Cursor, first.rest = second.rest →
      (Rule.readAll rulebase first).Agrees (Rule.readAll rulebase second) := by
  fun_induction Rule.readAll rulebase first with
  | case1 first isEnd =>
      intro second same
      rw [Rule.readAll_of_end rulebase (Cursor.peek_congr same ▸ isEnd)]
      exact ⟨rfl, Cursor.rest_advance_congr same 1⟩
  | case2 first notEnd atEnd =>
      intro second same
      rw [Rule.readAll_of_isAtEnd rulebase (Cursor.isAtEnd_congr same ▸ atEnd)]
      exact ⟨rfl, Cursor.rest_advance_congr same 1⟩
  | case3 first notEnd inside isRule rule others ih =>
      intro second same
      have secondInside : second.isAtEnd = false := by
        simpa [Cursor.isAtEnd_congr same] using inside
      obtain ⟨value, restOfRule⟩ := Rule.read_agrees same
      obtain ⟨values, rest⟩ := ih _ restOfRule
      rw [Rule.readAll_of_rule rulebase secondInside
        (Cursor.peek_congr same ▸ isRule)]
      exact ⟨congrArg₂ List.cons value values, rest⟩
  | case4 first notEnd inside notRule ih =>
      intro second same
      have peek := Cursor.peek_congr same
      have secondInside : second.isAtEnd = false := by
        simpa [Cursor.isAtEnd_congr same] using inside
      rw [Rule.readAll_of_other rulebase secondInside (peek ▸ notEnd)
        (peek ▸ notRule)]
      exact ih _ (Cursor.rest_advance_congr same 1)

private theorem Rulebase.readBody_agrees (scope : Scope) (id : Nat)
    {first second : Cursor} (same : first.rest = second.rest) :
    (Rulebase.readBody scope id first).Agrees
      (Rulebase.readBody scope id second) := by
  have name := Cursor.peekNth_congr same 1
  obtain ⟨values, rest⟩ := Rule.readAll_agrees (second.peekNth 1).value _ _
    (Cursor.rest_advance_congr same 2)
  rw [readBody, readBody, name]
  split
  · exact ⟨rfl, Cursor.rest_advance_congr same 3⟩
  · exact ⟨congrArg (Rulebase.mk _ _ _) values, rest⟩

namespace Progress

/-- What is left to read, the names declared and the lines written are the same.
How much was read before and what was raised on the way may differ. -/
structure Agrees (first second : Progress) : Prop where
  rest : first.cursor.rest = second.cursor.rest
  scope : first.scope = second.scope
  lines : first.lines = second.lines

/-- The lines with which a run ends, or the error on which it stops. -/
def outcome (progress : Progress) : Except CompileError Script :=
  match progress.run with
  | .error failure => .error failure.error
  | .ok finish => .ok finish.lines.toList

theorem outcome_congr {first second : Progress}
    (same : first.run = second.run) :
    first.outcome = second.outcome := by
  rw [outcome, same, ← outcome]

private theorem outcome_of_isAtEnd {progress : Progress}
    (atEnd : progress.cursor.isAtEnd = true) :
    progress.outcome = .ok progress.lines.toList := by
  rw [outcome, run_of_isAtEnd atEnd]

private theorem outcome_of_step_eq_error {progress : Progress}
    {error : CompileError} (inside : progress.cursor.isAtEnd = false)
    (failed : progress.step = .error error) :
    progress.outcome = .error error := by
  rw [outcome, run_of_step_eq_error inside failed]

namespace Agrees

variable {first second : Progress}

theorem name (agrees : Agrees first second) : first.name = second.name :=
  congrArg Token.value (Cursor.peekNth_congr agrees.rest 1)

theorem claimed (agrees : Agrees first second) :
    first.claimed = second.claimed :=
  congrArg₂ Scope.claimed agrees.scope agrees.name

theorem compileUniverse (agrees : Agrees first second) :
    Agrees first.compileUniverse second.compileUniverse := by
  obtain ⟨value, rest⟩ := Universe.read_agrees second.scope agrees.rest
  constructor
  · simp only [Progress.compileUniverse, agrees.scope, rest]
  · simp only [Progress.compileUniverse, agrees.scope, value]
  · simp only [Progress.compileUniverse, agrees.scope, agrees.lines, value]

theorem afterRulebase (agrees : Agrees first second) :
    Agrees first.afterRulebase second.afterRulebase := by
  have reading : first.rulebaseReading.Agrees second.rulebaseReading := by
    rw [rulebaseReading, rulebaseReading, agrees.claimed, agrees.scope]
    exact Rulebase.readBody_agrees _ _ agrees.rest
  constructor
  · exact reading.rest
  · exact agrees.claimed
  · simp only [Progress.afterRulebase, agrees.lines, agrees.claimed,
      reading.value]

theorem step (agrees : Agrees first second) :
    (∃ error, first.step = .error error ∧ second.step = .error error) ∨
      ∃ next other, first.step = .ok next ∧ second.step = .ok other ∧
        Agrees next other := by
  have peek := Cursor.peek_congr agrees.rest
  cases stepped : first.step with
  | error error =>
      left
      obtain ⟨opens, repeated, rfl⟩ := step_error_cases stepped
      refine ⟨_, rfl, ?_⟩
      rw [step_of_rulebase (peek ▸ opens), ← agrees.name, ← agrees.scope,
        if_pos repeated]
  | ok next =>
      right
      obtain ⟨opens, rfl⟩ | ⟨opens, fresh, rfl⟩ | ⟨passed, rfl⟩ :=
        step_eq_ok_cases stepped
      · exact ⟨_, _, rfl, step_of_universe (peek ▸ opens),
          agrees.compileUniverse⟩
      · refine ⟨_, _, rfl, ?_, agrees.afterRulebase⟩
        rw [step_of_rulebase (peek ▸ opens), ← agrees.name, ← agrees.scope,
          if_neg fresh]
      · exact ⟨_, _, rfl, step_of_not_opensBlock (peek ▸ passed),
          Cursor.rest_advance_congr agrees.rest 1, agrees.scope, agrees.lines⟩

theorem outcome (agrees : Agrees first second) :
    first.outcome = second.outcome := by
  -- The positions differ, so the induction is on how many tokens are left, the
  -- same for both.
  induction measure : first.cursor.rest.length using Nat.strong_induction_on
    generalizing first second with
  | _ size ih =>
      have sameEnd := Cursor.isAtEnd_congr agrees.rest
      cases atEnd : first.cursor.isAtEnd with
      | true =>
          rw [outcome_of_isAtEnd atEnd, outcome_of_isAtEnd (sameEnd ▸ atEnd),
            agrees.lines]
      | false =>
          have inside : second.cursor.isAtEnd = false := sameEnd ▸ atEnd
          obtain ⟨error, fails, failsToo⟩ |
            ⟨next, other, steps, stepsToo, agreesNext⟩ := agrees.step
          · rw [outcome_of_step_eq_error atEnd fails,
              outcome_of_step_eq_error inside failsToo]
          · rw [outcome_congr (run_of_step_eq_ok atEnd steps),
              outcome_congr (run_of_step_eq_ok inside stepsToo)]
            exact ih _ (measure ▸ rest_length_lt_of_step atEnd steps)
              agreesNext rfl

end Agrees

def resume (progress : Progress) (tokens : List Token) : Progress :=
  { progress with cursor := ⟨tokens, progress.cursor.position⟩ }

/-- A run that ends with its tokens goes on with the tokens behind them. -/
theorem outcome_start_append {first : List Token} {finish : Progress}
    (ran : (start first).run = .ok finish)
    (whole : finish.cursor.position = first.length) (second : List Token) :
    (start (first ++ second)).outcome = (finish.resume second).outcome := by
  obtain ⟨reaches, _⟩ := reaches_of_run_eq_ok ran
  obtain ⟨passed, middle, reached, extension⟩ := reaches.append whole.le second
  have rest : middle.cursor.rest = second := by
    rw [extension.cursor, reaches.cursor_eq, whole, List.drop_length]
    rfl
  rw [outcome_congr reached.run_eq]
  exact Agrees.outcome ⟨rest, extension.scope, extension.lines⟩

private theorem outcome_resume_pass (progress : Progress) {passed : List Token}
    (between : ∀ token ∈ passed, token.opensBlock = false)
    (tokens : List Token) :
    (progress.resume (passed ++ tokens)).outcome =
      (progress.resume tokens).outcome := by
  rw [outcome_congr (run_pass rfl between)]
  exact Agrees.outcome ⟨List.drop_left, rfl, rfl⟩

/-- The state after a rulebase that no universe matches. -/
def withPlaceholder (progress : Progress) (name : String) : Progress :=
  { progress with
    scope := progress.scope.claimed name
    lines := progress.lines ++
      Rulebase.lines progress.scope ⟨progress.scope.rulebases.length, name,
        none, []⟩ }

/-- The body of such a rulebase is not read: one token is passed over, whatever
it is. -/
theorem afterRulebase_of_unmatched {progress : Progress}
    (unmatched : progress.scope.universeId? progress.name = none) :
    Agrees progress.afterRulebase
      ((progress.withPlaceholder progress.name).resume
        (progress.cursor.rest.drop 3)) := by
  have unmatchedClaimed : progress.claimed.universeId? progress.name = none :=
    unmatched
  have reading : progress.rulebaseReading =
      ⟨⟨progress.scope.rulebases.length, progress.name, none, []⟩,
        progress.cursor.advance 3, [.unmatchedRulebase progress.name]⟩ :=
    Rulebase.readBody_of_unmatched unmatchedClaimed _
  constructor
  · rw [afterRulebase, reading]
    rfl
  · rfl
  · rw [afterRulebase, reading]
    rfl

private theorem outcome_resume_unmatched (progress : Progress) {name : Token}
    (unmatched : progress.scope.universeId? name.value = none) (third : Token)
    (tokens : List Token) :
    (progress.resume (.keyword "rulebase" :: name :: third :: tokens)).outcome =
      if name.value ∈ progress.scope.rulebases then
        .error (.duplicateRulebase name.value)
      else ((progress.withPlaceholder name.value).resume tokens).outcome := by
  have stepped :
      (progress.resume (.keyword "rulebase" :: name :: third :: tokens)).step =
      if name.value ∈ progress.scope.rulebases then
        .error (.duplicateRulebase name.value)
      else .ok (progress.resume
        (.keyword "rulebase" :: name :: third :: tokens)).afterRulebase :=
    step_of_rulebase rfl
  split at stepped
  · next repeated => rw [outcome_of_step_eq_error rfl stepped, if_pos repeated]
  · next fresh =>
      rw [outcome_congr (run_of_step_eq_ok rfl stepped), if_neg fresh]
      exact (afterRulebase_of_unmatched unmatched).outcome

/-- So a body that opens no block leaves no trace, as long as there is one. -/
theorem outcome_resume_body (progress : Progress) {name : Token}
    (unmatched : progress.scope.universeId? name.value = none)
    {body : List Token} (nonempty : body ≠ [])
    (between : ∀ token ∈ body, token.opensBlock = false) (tokens : List Token) :
    (progress.resume
      (.keyword "rulebase" :: name :: (body ++ tokens))).outcome =
      if name.value ∈ progress.scope.rulebases then
        .error (.duplicateRulebase name.value)
      else ((progress.withPlaceholder name.value).resume tokens).outcome := by
  cases body with
  | nil => exact absurd rfl nonempty
  | cons third others =>
      have betweenOthers : ∀ token ∈ others, token.opensBlock = false :=
        fun token member => between token (List.mem_cons_of_mem third member)
      rw [List.cons_append, outcome_resume_unmatched progress unmatched,
        outcome_resume_pass _ betweenOthers]

end Progress

private theorem Token.countKeyword_pass {passed : List Token}
    (between : ∀ token ∈ passed, token.opensBlock = false) {keyword : String}
    (opens : (Token.keyword keyword).opensBlock = true)
    (front back : List Token) :
    countKeyword (front ++ passed ++ back) keyword =
      countKeyword (front ++ back) keyword := by
  have uncounted : passed.countP (fun token => token.isKeyword keyword) = 0 :=
    countKeyword_of_not_opensBlock opens between
  rw [countKeyword, countKeyword, List.countP_append, List.countP_append,
    List.countP_append, uncounted, Nat.add_zero]

theorem compile_result (tokens : List Token) :
    (compile tokens).result = (Progress.start tokens).outcome.map
      (Script.program (Token.countKeyword tokens "universe")
        (Token.countKeyword tokens "rulebase")) := by
  cases ran : (Progress.start tokens).run with
  | error failure =>
      rw [compile_of_run_eq_error ran, Progress.outcome, ran]
      rfl
  | ok finish =>
      rw [compile_of_run_eq_ok ran, Progress.outcome, ran]
      rfl

theorem compile_congr {first second : List Token}
    (outcomes : (Progress.start first).outcome =
      (Progress.start second).outcome)
    (counts : ∀ keyword, (Token.keyword keyword).opensBlock = true →
      Token.countKeyword first keyword = Token.countKeyword second keyword) :
    (compile first).result = (compile second).result := by
  rw [compile_result, compile_result, outcomes, counts "universe" rfl,
    counts "rulebase" rfl]

/-- Behind tokens that a run reads to their very end, tokens that open no block
can be left out. So can the body of a rulebase whose name is that of no universe
declared before: it comes to the same script or error as an `end` in its
place. -/
theorem compile_ignores_skipped {first : List Token} {finish : Progress}
    (ran : (Progress.start first).run = .ok finish)
    (whole : finish.cursor.position = first.length) {skipped : List Token}
    (between : ∀ token ∈ skipped, token.opensBlock = false)
    (second : List Token) :
    (compile (first ++ skipped ++ second)).result =
      (compile (first ++ second)).result ∧
    ∀ name : Token, name.value ∉ finish.scope.universes.map Universe.name →
      skipped ≠ [] →
      (compile (first ++ [.keyword "rulebase", name] ++ skipped ++
        second)).result =
        (compile (first ++ [.keyword "rulebase", name, .keyword "end"] ++
          second)).result := by
  have resumes := Progress.outcome_start_append ran whole
  constructor
  · apply compile_congr
    · rw [List.append_assoc, resumes, resumes,
        Progress.outcome_resume_pass finish between]
    · intro keyword opens
      exact Token.countKeyword_pass between opens first second
  · intro name unknown nonempty
    have closing : ∀ token ∈ [Token.keyword "end"], token.opensBlock = false :=
      List.forall_mem_singleton.mpr rfl
    have lawful : finish.scope.Lawful :=
      (Progress.reaches_of_run_eq_ok ran).1.lawful Scope.Lawful.empty
    have unmatched : finish.scope.universeId? name.value = none :=
      (lawful.universeId?_eq_none_iff name.value).mpr unknown
    have ended : first ++ [.keyword "rulebase", name, .keyword "end"] =
        first ++ [.keyword "rulebase", name] ++ [.keyword "end"] := by
      rw [List.append_assoc]
      rfl
    rw [ended]
    apply compile_congr
    · rw [List.append_assoc, List.append_assoc, List.append_assoc,
        List.append_assoc, resumes, resumes]
      exact (finish.outcome_resume_body unmatched nonempty between second).trans
        (finish.outcome_resume_body unmatched (List.cons_ne_nil _ _) closing
          second).symm
    · intro keyword opens
      rw [Token.countKeyword_pass between opens,
        Token.countKeyword_pass closing opens]

/-- Words that open or close blocks, in quotes, of another kind or out of
place. -/
def strayWords : List Token :=
  [⟨.literal, "universe"⟩, .keyword "rule", .keyword "end",
    ⟨.other, "rulebase"⟩, .keyword "end"]

def declaringBlock : List Token :=
  [.keyword "universe", ⟨.literal, "u"⟩, ⟨.literal, "a"⟩, ⟨.literal, "0"⟩,
    ⟨.literal, "1"⟩, .keyword "end"]

def claimingBlock : List Token :=
  [.keyword "rulebase", ⟨.literal, "w"⟩, .keyword "end"]

/-- The rulebase in front of the stray words claims the name of the one behind
them. -/
theorem compile_ignores_skipped_strayWords :
    (compile (declaringBlock ++ strayWords ++ claimingBlock)).result =
        (compile (declaringBlock ++ claimingBlock)).result ∧
      (compile (declaringBlock ++ claimingBlock)).result.isOk = true ∧
      (compile (declaringBlock ++ [.keyword "rulebase", ⟨.other, "w"⟩] ++
        strayWords ++ claimingBlock)).result =
        .error (.duplicateRulebase "w") := by
  have ends : (Progress.start declaringBlock).run.toOption.map
      (fun finish =>
        (finish.cursor.position, finish.scope.universes.map Universe.name)) =
        some (declaringBlock.length, ["u"]) := by
    decide +kernel
  cases ran : (Progress.start declaringBlock).run with
  | error failure => simp [ran, Except.toOption] at ends
  | ok finish =>
      obtain ⟨whole, names⟩ : finish.cursor.position = declaringBlock.length ∧
          finish.scope.universes.map Universe.name = ["u"] := by
        simpa [ran, Except.toOption] using ends
      obtain ⟨between, bodies⟩ :=
        compile_ignores_skipped ran whole
          (show ∀ token ∈ strayWords, _ by decide) claimingBlock
      refine ⟨between, by decide +kernel, ?_⟩
      refine (bodies ⟨.other, "w"⟩ ?_ (List.cons_ne_nil _ _)).trans
        (by decide +kernel)
      rw [names]
      decide

end FuzzyRules
