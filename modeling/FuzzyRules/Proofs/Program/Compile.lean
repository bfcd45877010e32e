import FuzzyRules.Proofs.Program.Text

namespace FuzzyRules

namespace Program

/-! Only the first token of a block opens one. -/

private theorem not_opensBlock_antecedent (antecedent : Antecedent) :
    ∀ token ∈ writeAntecedent asTokens antecedent,
      token.opensBlock = false := by
  simp only [writeAntecedent, List.forall_mem_cons]
  exact ⟨rfl, rfl, rfl, List.forall_mem_nil _⟩

private theorem not_opensBlock_antecedents (antecedents : List Antecedent) :
    ∀ token ∈ writeAntecedents asTokens antecedents,
      token.opensBlock = false := by
  fun_induction writeAntecedents asTokens antecedents with
  | case1 => exact List.forall_mem_nil _
  | case2 antecedent => exact not_opensBlock_antecedent antecedent
  | case3 antecedent others _ ih =>
      rw [List.forall_mem_append, List.forall_mem_cons]
      exact ⟨not_opensBlock_antecedent antecedent, rfl, ih⟩

private theorem not_opensBlock_rule (rule : Rule) :
    ∀ token ∈ writeRule asTokens rule, token.opensBlock = false := by
  simp only [writeRule, List.forall_mem_append, List.forall_mem_cons]
  exact ⟨⟨⟨rfl, rfl, rfl, List.forall_mem_nil _⟩,
      not_opensBlock_antecedents rule.antecedents⟩, rfl, List.forall_mem_nil _⟩

def Block.keyword : Block → String
  | ofUniverse _ _ => "universe"
  | ofRulebase _ _ => "rulebase"

def Block.name : Block → String
  | ofUniverse name _ => name
  | ofRulebase name _ => name

def Block.body : Block → List Token
  | ofUniverse _ entries =>
      entries.flatMap (Entry.write asTokens) ++ [Token.keyword "end"]
  | ofRulebase _ rules =>
      rules.flatMap (writeRule asTokens) ++ [Token.keyword "end"]

private theorem write_asTokens (block : Block) :
    block.write asTokens = Token.keyword block.keyword ::
      asTokens.name block.name :: block.body := by
  cases block <;>
    simp [Block.write, Block.keyword, Block.name, Block.body, asTokens]

private theorem not_opensBlock_body (block : Block) :
    ∀ token ∈ block.body, token.opensBlock = false := by
  cases block with
  | ofUniverse name entries =>
      rw [Block.body, List.forall_mem_append, List.forall_mem_flatMap]
      refine ⟨?_, by decide⟩
      intro entry _
      simp only [Entry.write, List.forall_mem_cons]
      exact ⟨rfl, rfl, rfl, List.forall_mem_nil _⟩
  | ofRulebase name rules =>
      rw [Block.body, List.forall_mem_append, List.forall_mem_flatMap]
      exact ⟨fun rule _ => not_opensBlock_rule rule, by decide⟩

private theorem countKeyword_body (block : Block) {keyword : String}
    (opens : (Token.keyword keyword).opensBlock = true) :
    Token.countKeyword block.body keyword = 0 :=
  Token.countKeyword_of_not_opensBlock opens (not_opensBlock_body block)

private theorem countKeyword_block (block : Block) :
    Token.countKeyword (block.write asTokens) "universe" =
      (universes [block]).length ∧
      Token.countKeyword (block.write asTokens) "rulebase" =
        (rulebases [block]).length := by
  have noUniverse : Token.countKeyword block.body "universe" = 0 :=
    countKeyword_body block rfl
  have noRulebase : Token.countKeyword block.body "rulebase" = 0 :=
    countKeyword_body block rfl
  rw [Token.countKeyword] at noUniverse noRulebase
  rw [write_asTokens, Token.countKeyword, Token.countKeyword, List.countP_cons,
    List.countP_cons, List.countP_cons, List.countP_cons, noUniverse,
    noRulebase]
  cases block with
  | ofUniverse name entries => exact ⟨rfl, rfl⟩
  | ofRulebase name rules => exact ⟨rfl, rfl⟩

private theorem countKeyword_tokens (blocks : List Block) :
    Token.countKeyword (tokens blocks) "universe" = (universes blocks).length ∧
      Token.countKeyword (tokens blocks) "rulebase" =
        (rulebases blocks).length := by
  induction blocks with
  | nil => exact ⟨rfl, rfl⟩
  | cons block others ih =>
      have first := countKeyword_block block
      rw [Token.countKeyword, Token.countKeyword] at first ih
      rw [← List.singleton_append, universes, rulebases, List.filterMap_append,
        List.filterMap_append, List.length_append, List.length_append, tokens,
        List.flatMap_append, List.flatMap_singleton, Token.countKeyword,
        Token.countKeyword, List.countP_append, List.countP_append]
      exact ⟨congrArg₂ _ first.1 ih.1, congrArg₂ _ first.2 ih.2⟩

/-- A compilation that has come past `earlier` blocks and has `after` still to
read. -/
structure Past (earlier : List Block) (after : List Token)
    (progress : Progress) : Prop where
  rest : progress.cursor.rest = after
  matched : Matches progress.scope earlier
  text : Script.text progress.lines.toList = textFrom [] earlier

namespace Past

variable {earlier : List Block} {after : List Token} {progress : Progress}
  {name : String}

theorem run_universe {entries : List Entry}
    (past : Past earlier
      ((Block.ofUniverse name entries).write asTokens ++ after) progress) :
    ∃ next, progress.run = next.run ∧
      Past (earlier ++ [.ofUniverse name entries]) after next := by
  have opens : progress.cursor.peek.isKeyword "universe" = true := by
    rw [Cursor.peek_of_rest past.rest]
    rfl
  obtain ⟨read, stopsAt⟩ := read_universe progress.scope past.rest
  refine ⟨progress.compileUniverse,
    Progress.run_of_step_eq_ok (Cursor.isAtEnd_of_rest past.rest)
      (Progress.step_of_universe opens), stopsAt, ?_, ?_⟩
  · rw [Progress.compileUniverse, read]
    exact past.matched.declare name entries
  · rw [Progress.compileUniverse, read, Array.toList_appendList,
      Script.text_append, past.text, textFrom_append, List.nil_append,
      Block.text, ← past.matched.length_universes]
    exact congrArg _ (text_universe _ name entries)

section Rulebases

variable {rules : List Rule}
  (past : Past earlier ((Block.ofRulebase name rules).write asTokens ++ after)
    progress)

include past

theorem name_eq : progress.name = name := by
  rw [Progress.name, Cursor.peekNth_of_rest past.rest]
  rfl

theorem run_repeated (repeated : name ∈ rulebases earlier) :
    progress.run = .error ⟨.duplicateRulebase name, progress⟩ := by
  have opens : progress.cursor.peek.isKeyword "rulebase" = true := by
    rw [Cursor.peek_of_rest past.rest]
    rfl
  apply Progress.run_of_step_eq_error (Cursor.isAtEnd_of_rest past.rest)
  rw [Progress.step_of_rulebase opens, past.name_eq, past.matched.rulebases,
    if_pos repeated]

theorem run_fresh (fresh : name ∉ rulebases earlier) :
    progress.run = progress.afterRulebase.run := by
  have opens : progress.cursor.peek.isKeyword "rulebase" = true := by
    rw [Cursor.peek_of_rest past.rest]
    rfl
  apply Progress.run_of_step_eq_ok (Cursor.isAtEnd_of_rest past.rest)
  rw [Progress.step_of_rulebase opens, past.name_eq, past.matched.rulebases,
    if_neg fresh]

theorem matched_afterRulebase :
    Matches progress.afterRulebase.scope
      (earlier ++ [.ofRulebase name rules]) := by
  rw [Progress.afterRulebase, Progress.claimed, past.name_eq]
  exact past.matched.claim name rules

theorem universeId?_claimed :
    progress.claimed.universeId? name = universeId? earlier name :=
  past.matched.universeId? name

theorem text_afterRulebase
    (written :
      Script.text (progress.rulebaseReading.value.lines progress.claimed) =
      (Block.ofRulebase name rules).text earlier) :
    Script.text progress.afterRulebase.lines.toList =
      textFrom [] (earlier ++ [.ofRulebase name rules]) := by
  rw [Progress.afterRulebase, Array.toList_appendList, Script.text_append,
    written, past.text, textFrom_append, List.nil_append]

theorem run_matched {consequent : Nat}
    (wellFormed : ∀ rule ∈ rules, RuleWellFormed rule)
    (found : universeId? earlier name = some consequent) :
    Past (earlier ++ [.ofRulebase name rules]) after
      progress.afterRulebase := by
  obtain ⟨read, stopsAt⟩ : progress.rulebaseReading.value =
        ⟨progress.scope.rulebases.length, name, some consequent, rules⟩ ∧
      progress.rulebaseReading.cursor.rest = after :=
    read_rulebase wellFormed (past.universeId?_claimed.trans found) past.rest
  refine ⟨stopsAt, past.matched_afterRulebase, past.text_afterRulebase ?_⟩
  rw [read, Block.text, found, ← past.matched.rulebases]
  exact text_rulebase past.matched _ name rules consequent

/-- The body of a rulebase without a universe is passed over. -/
theorem run_unmatched (missing : universeId? earlier name = none) :
    ∃ next, progress.afterRulebase.run = next.run ∧
      Past (earlier ++ [.ofRulebase name rules]) after next := by
  obtain ⟨read, stopsAt⟩ : progress.rulebaseReading.value =
        ⟨progress.scope.rulebases.length, name, none, []⟩ ∧
      progress.rulebaseReading.cursor = progress.cursor.advance 3 :=
    read_unmatched (past.universeId?_claimed.trans missing) past.rest
  -- Three tokens are passed at once, so the first token of the body is gone
  -- before the others.
  obtain ⟨first, body, isBody⟩ : ∃ first body,
    (Block.ofRulebase name rules).body = first :: body :=
    List.exists_cons_of_ne_nil (by simp [Block.body])
  have between : ∀ token ∈ body, token.opensBlock = false := by
    intro token member
    apply not_opensBlock_body (.ofRulebase name rules)
    rw [isBody]
    exact List.mem_cons_of_mem first member
  have rest : progress.afterRulebase.cursor.rest = body ++ after := by
    rw [Progress.afterRulebase, stopsAt, Cursor.advance_rest, past.rest,
      write_asTokens, isBody]
    rfl
  refine ⟨_, Progress.run_pass rest between, ?_, past.matched_afterRulebase,
    past.text_afterRulebase ?_⟩
  · rw [Cursor.advance_rest, rest, List.drop_left]
  · rw [read, Block.text, missing, ← past.matched.rulebases]
    exact text_unmatched _ name rules

end Rulebases

theorem run_block {block : Block}
    (past : Past earlier (block.write asTokens ++ after) progress)
    (wellFormed : block.WellFormed)
    (distinct : (rulebases (earlier ++ [block])).Nodup) :
    ∃ next, progress.run = next.run ∧ Past (earlier ++ [block]) after next := by
  cases block with
  | ofUniverse name entries => exact past.run_universe
  | ofRulebase name rules =>
      have fresh : name ∉ rulebases earlier := by
        rw [rulebases_append_rulebase, List.nodup_append] at distinct
        intro member
        exact distinct.2.2 name member name List.mem_cons_self rfl
      rw [past.run_fresh fresh]
      cases found : universeId? earlier name with
      | none => exact past.run_unmatched found
      | some consequent => exact ⟨_, rfl, past.run_matched wellFormed.2 found⟩

theorem run_blocks {blocks : List Block}
    (past : Past earlier (tokens blocks ++ after) progress)
    (wellFormed : ∀ block ∈ blocks, block.WellFormed)
    (distinct : (rulebases (earlier ++ blocks)).Nodup) :
    ∃ next, progress.run = next.run ∧ Past (earlier ++ blocks) after next := by
  induction blocks generalizing earlier progress with
  | nil => exact ⟨progress, rfl, by rwa [List.append_nil]⟩
  | cons block others ih =>
      rw [tokens, List.flatMap_cons, List.append_assoc] at past
      rw [List.append_cons] at distinct ⊢
      have distinctFirst : (rulebases (earlier ++ [block])).Nodup := by
        rw [rulebases, List.filterMap_append] at distinct
        exact distinct.of_append_left
      obtain ⟨next, ran, pastNext⟩ :=
        past.run_block (wellFormed block List.mem_cons_self) distinctFirst
      rw [ran]
      exact ih pastNext (fun other member =>
        wellFormed other (List.mem_cons_of_mem block member)) distinct

end Past

private theorem past_start (after : List Token) :
    Past [] after (Progress.start after) :=
  ⟨rfl, .empty, rfl⟩

theorem compile_tokens {blocks : List Block}
    (wellFormed : ∀ block ∈ blocks, block.WellFormed)
    (distinct : (rulebases blocks).Nodup) :
    ∃ script, (compile (tokens blocks)).result = .ok script ∧
      Script.text script = text blocks := by
  have past : Past [] (tokens blocks ++ [])
      (Progress.start (tokens blocks)) := by
    rw [List.append_nil]
    exact past_start (tokens blocks)
  obtain ⟨finish, ran, pastAll⟩ := past.run_blocks wellFormed distinct
  have atEnd : finish.cursor.isAtEnd = true := by
    rw [Cursor.isAtEnd, pastAll.rest]
    rfl
  rw [Progress.run_of_isAtEnd atEnd] at ran
  refine ⟨_, compile_of_run_eq_ok ran, ?_⟩
  have counts := countKeyword_tokens blocks
  rw [Script.text_program, pastAll.text, counts.1, counts.2]
  rfl

theorem compile_repeated {first others : List Block} {name : String}
    {rules : List Rule} (wellFormed : ∀ block ∈ first, block.WellFormed)
    (distinct : (rulebases first).Nodup) (repeated : name ∈ rulebases first) :
    (compile (tokens (first ++ .ofRulebase name rules :: others))).result =
      .error (.duplicateRulebase name) := by
  obtain ⟨all, isAll⟩ : ∃ all,
    all = tokens (first ++ .ofRulebase name rules :: others) := ⟨_, rfl⟩
  have past : Past []
      (tokens first ++
        ((Block.ofRulebase name rules).write asTokens ++ tokens others))
      (Progress.start all) := by
    have split : all = tokens first ++
        ((Block.ofRulebase name rules).write asTokens ++ tokens others) := by
      rw [isAll, tokens, List.flatMap_append, List.flatMap_cons]
      rfl
    rw [← split]
    exact past_start all
  obtain ⟨finish, ran, pastFirst⟩ := past.run_blocks wellFormed distinct
  rw [pastFirst.run_repeated repeated] at ran
  rw [← isAll, compile_of_run_eq_error ran]

/-- A program whose rulebases have distinct names is compiled to its text, under
every layout. Of repeated names, the first to come a second time is reported. -/
theorem compileSource_render {blocks : List Block}
    (wellFormed : ∀ block ∈ blocks, block.WellFormed) (layout : Layout) :
    ((rulebases blocks).Nodup →
      compileSource (layout.render (pieces blocks)) = .ok (text blocks)) ∧
    ∀ first name rules others,
      blocks = first ++ .ofRulebase name rules :: others →
      (rulebases first).Nodup → name ∈ rulebases first →
      compileSource (layout.render (pieces blocks)) =
        .error (.compile (.duplicateRulebase name)) := by
  rw [compileSource_of_scan (scan_render wellFormed layout)]
  constructor
  · intro distinct
    obtain ⟨script, compiled, written⟩ := compile_tokens wellFormed distinct
    rw [compiled, ← written]
    rfl
  · intro first name rules others split distinct repeated
    have wellFormedFirst : ∀ block ∈ first, block.WellFormed := by
      intro block member
      apply wellFormed block
      rw [split]
      exact List.mem_append_left _ member
    rw [split, compile_repeated wellFormedFirst distinct repeated]
    rfl

/-- Two universes of one name, a rulebase without a universe, and keywords for
names. -/
def keywordsAsNames : List Block :=
  [.ofUniverse "rule" [⟨"end", "0", "1"⟩, ⟨"and", "1.5", "-2e3"⟩],
    .ofRulebase "is" [⟨"universe", [⟨"rule", "end"⟩]⟩],
    .ofUniverse "rule" [],
    .ofRulebase "rule" [⟨"end", [⟨"rule", "and"⟩, ⟨"when", "end"⟩]⟩]]

def onOneLine : Layout where
  before := []
  between := fun _ => [.separator ' ' rfl]
  after := []
  apart := fun _ => List.cons_ne_nil _ _

theorem compileSource_keywordsAsNames :
    compileSource
        ("universe \"rule\" \"end\" 0 1 \"and\" 1.5 -2e3 end " ++
          "rulebase \"is\" rule \"universe\" " ++
          "when \"rule\" is \"end\" end end " ++
          "universe \"rule\" end " ++
          "rulebase \"rule\" rule \"end\" " ++
          "when \"rule\" is \"and\" and \"when\" is \"end\" end end") =
      .ok
        ("int main()\x7b\n\nFRI_init(2, 2);\n\n" ++
          "FRI_initUniverseById(0, 2); // Universe: rule\n" ++
          "FRI_addUniverseElement(0, 1);\n" ++
          "FRI_addUniverseElement(1.5, -2000);\n\n" ++
          "FRI_initRuleBaseById(0, 0, -1); // Rulebase: is (INVALID)\n\n" ++
          "FRI_initUniverseById(1, 0); // Universe: rule\n\n" ++
          "FRI_initRuleBaseById(1, 1, 0); // Rulebase: rule\n" ++
          "FRI_addRuleToRulebase(0, 2);\n" ++
          "FRI_addAntecedentToRule(0, 1);\n" ++
          "FRI_addAntecedentToRule(-1, -1);\n\n\n" ++
          "\nreturn 0;\n\x7d\n") := by
  have wellFormed : ∀ block ∈ keywordsAsNames, block.WellFormed := by decide
  have compiled := (compileSource_render wellFormed onOneLine).1 (by decide)
  refine Eq.trans (congrArg compileSource ?_)
    (compiled.trans (congrArg Except.ok ?_))
  · decide +kernel
  · decide +kernel

end Program

end FuzzyRules
