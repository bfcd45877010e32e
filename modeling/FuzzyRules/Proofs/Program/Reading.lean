import FuzzyRules.Proofs.Compilation.Run
import FuzzyRules.Proofs.Program.Basic

namespace FuzzyRules

private theorem forall₂_flatMap {α β γ : Type} {related : β → γ → Prop}
    {left : α → List β} {right : α → List γ} {list : List α}
    (each : ∀ a ∈ list, List.Forall₂ related (left a) (right a)) :
    List.Forall₂ related (list.flatMap left) (list.flatMap right) := by
  induction list with
  | nil => exact .nil
  | cons a others ih =>
      rw [List.flatMap_cons, List.flatMap_cons]
      apply List.rel_append (each a List.mem_cons_self)
      apply ih
      intro b member
      exact each b (List.mem_cons_of_mem a member)

namespace Token

theorem spelledBy_number {text : String} (number : Program.IsNumber text) :
    SpelledBy ⟨.literal, text⟩ (.word text.toList) := by
  have nonempty : text.toList ≠ [] := by
    intro empty
    rw [Program.IsNumber, empty] at number
    exact absurd number (by decide)
  have notKeyword : text ∉ keywords := by
    have checked : ∀ keyword ∈ keywords,
        keyword.toList ∉ Word.numbers := by decide
    intro member
    exact checked text member number
  have token : Word.token text.toList = ⟨.literal, text⟩ := by
    have isNumber : text.toList ∈ Word.numbers := number
    simp [Word.token, notKeyword, isNumber]
  have spelled : (Word.token text.toList).SpelledBy (.word text.toList) :=
    spelledBy_word nonempty
      (Pattern.mem_kstar_letter.mp (Word.numbers_le number))
  rwa [token] at spelled

end Token

namespace Program

open Token

private theorem spelled_entry {entry : Entry} (wellFormed : entry.WellFormed) :
    List.Forall₂ SpelledBy (entry.write asTokens) (entry.write asPieces) := by
  obtain ⟨name, x, y⟩ := wellFormed
  exact .cons (spelledBy_string name)
    (.cons (spelledBy_number x) (.cons (spelledBy_number y) .nil))

private theorem spelled_antecedent {antecedent : Antecedent}
    (wellFormed : AntecedentWellFormed antecedent) :
    List.Forall₂ SpelledBy (writeAntecedent asTokens antecedent)
      (writeAntecedent asPieces antecedent) := by
  obtain ⟨subject, condition, _⟩ := wellFormed
  exact .cons (spelledBy_string subject) (.cons (spelledBy_keyword (by decide))
    (.cons (spelledBy_string condition) .nil))

private theorem spelled_antecedents {antecedents : List Antecedent}
    (wellFormed : ∀ antecedent ∈ antecedents, AntecedentWellFormed antecedent) :
    List.Forall₂ SpelledBy (writeAntecedents asTokens antecedents)
      (writeAntecedents asPieces antecedents) := by
  induction antecedents with
  | nil => exact .nil
  | cons antecedent others ih =>
      have first :=
        spelled_antecedent (wellFormed antecedent List.mem_cons_self)
      have rest := ih fun other member =>
        wellFormed other (List.mem_cons_of_mem antecedent member)
      cases others with
      | nil => exact first
      | cons next others =>
          exact List.rel_append first
            (.cons (spelledBy_keyword (by decide)) rest)

private theorem spelled_rule {rule : Rule} (wellFormed : RuleWellFormed rule) :
    List.Forall₂ SpelledBy (writeRule asTokens rule)
      (writeRule asPieces rule) := by
  obtain ⟨consequent, antecedents⟩ := wellFormed
  have opening : List.Forall₂ SpelledBy
      [asTokens.keyword "rule", asTokens.name rule.consequent,
        asTokens.keyword "when"]
      [asPieces.keyword "rule", asPieces.name rule.consequent,
        asPieces.keyword "when"] :=
    .cons (spelledBy_keyword (by decide)) (.cons (spelledBy_string consequent)
      (.cons (spelledBy_keyword (by decide)) .nil))
  exact List.rel_append
    (List.rel_append opening (spelled_antecedents antecedents))
    (.cons (spelledBy_keyword (by decide)) .nil)

private theorem spelled_block {block : Block} (wellFormed : block.WellFormed) :
    List.Forall₂ SpelledBy (block.write asTokens) (block.write asPieces) := by
  have closing : List.Forall₂ SpelledBy [asTokens.keyword "end"]
      [asPieces.keyword "end"] :=
    .cons (spelledBy_keyword (by decide)) .nil
  cases block with
  | ofUniverse name entries =>
      have opening : List.Forall₂ SpelledBy
          [asTokens.keyword "universe", asTokens.name name]
          [asPieces.keyword "universe", asPieces.name name] :=
        .cons (spelledBy_keyword (by decide))
          (.cons (spelledBy_string wellFormed.1) .nil)
      have body := forall₂_flatMap fun entry member =>
        spelled_entry (wellFormed.2 entry member)
      exact List.rel_append (List.rel_append opening body) closing
  | ofRulebase name rules =>
      have opening : List.Forall₂ SpelledBy
          [asTokens.keyword "rulebase", asTokens.name name]
          [asPieces.keyword "rulebase", asPieces.name name] :=
        .cons (spelledBy_keyword (by decide))
          (.cons (spelledBy_string wellFormed.1) .nil)
      have body := forall₂_flatMap fun rule member =>
        spelled_rule (wellFormed.2 rule member)
      exact List.rel_append (List.rel_append opening body) closing

theorem scan_render {blocks : List Block}
    (wellFormed : ∀ block ∈ blocks, block.WellFormed) (layout : Layout) :
    scan (layout.render (pieces blocks)) = .ok (tokens blocks) := by
  apply Token.scan_render
  exact forall₂_flatMap fun block member =>
    spelled_block (wellFormed block member)

end Program

namespace Program

def Entry.element (entry : Entry) : Element :=
  ⟨entry.name, Coordinate.value entry.x, Coordinate.value entry.y⟩

private theorem readAll_entries (universeName : String) {entries : List Entry}
    {cursor : Cursor} {after : List Token}
    (closed : (after.headD .empty).kind ≠ .literal)
    (rest : cursor.rest = entries.flatMap (Entry.write asTokens) ++ after) :
    (Element.readAll universeName cursor).value = entries.map Entry.element ∧
      (Element.readAll universeName cursor).cursor.rest = after := by
  induction entries generalizing cursor with
  | nil =>
      have notLiteral : cursor.peek.kind ≠ .literal := by
        rwa [Cursor.peek, Cursor.peekNth_of_rest rest, List.flatMap_nil,
          List.nil_append, ← List.headD_eq_getD]
      rw [Element.readAll, dif_neg notLiteral]
      exact ⟨rfl, rest⟩
  | cons entry others ih =>
      rw [List.flatMap_cons, List.append_assoc] at rest
      have literal : cursor.peek.kind = .literal := by
        rw [Cursor.peek_of_rest rest]
        rfl
      have restAfter : (cursor.advance 3).rest =
          others.flatMap (Entry.write asTokens) ++ after := by
        rw [Cursor.advance_rest, rest]
        rfl
      obtain ⟨values, stopsAt⟩ := ih restAfter
      rw [Element.readAll, dif_pos literal]
      refine ⟨?_, stopsAt⟩
      simp only [Element.readOne, Cursor.peek,
        Cursor.peekNth_of_rest rest, values]
      rfl

/-- Whatever opens, names and closes a universe, its entries are read as its
elements. -/
theorem read_entries (scope : Scope) {opening named : Token}
    {entries : List Entry} {cursor : Cursor} {after : List Token}
    (closed : (after.headD .empty).kind ≠ .literal)
    (rest : cursor.rest =
      opening :: named :: (entries.flatMap (Entry.write asTokens) ++ after)) :
    (Universe.read scope cursor).value =
      scope.newUniverse named.value (entries.map Entry.element) ∧
      (Universe.read scope cursor).cursor.rest = after.tail := by
  have restAfter : (cursor.advance 2).rest =
      entries.flatMap (Entry.write asTokens) ++ after := by
    rw [Cursor.advance_rest, rest]
    rfl
  obtain ⟨values, stopsAt⟩ := readAll_entries named.value closed restAfter
  have found : (cursor.peekNth 1).value = named.value := by
    rw [Cursor.peekNth_of_rest rest]
    rfl
  simp [Universe.read, found, values, stopsAt]

theorem read_universe (scope : Scope) {name : String} {entries : List Entry}
    {cursor : Cursor} {after : List Token}
    (rest : cursor.rest =
      (Block.ofUniverse name entries).write asTokens ++ after) :
    (Universe.read scope cursor).value =
      scope.newUniverse name (entries.map Entry.element) ∧
      (Universe.read scope cursor).cursor.rest = after := by
  have closed : ((Token.keyword "end" :: after).headD .empty).kind ≠
      .literal := by
    rw [List.headD_cons]
    decide
  have written : cursor.rest = Token.keyword "universe" :: asTokens.name name ::
      (entries.flatMap (Entry.write asTokens) ++
        Token.keyword "end" :: after) := by
    rw [rest]
    simp [Block.write, asTokens]
  exact read_entries scope closed written

section Rules

variable {cursor : Cursor} {more after : List Token}

private theorem readAll_end (consequent : String)
    (rest : cursor.rest = Token.keyword "end" :: after) :
    (Antecedent.readAll consequent cursor).value = [] ∧
      (Antecedent.readAll consequent cursor).cursor.rest = after := by
  have isEnd : cursor.peek.value = "end" := by
    rw [Cursor.peek_of_rest rest]
    rfl
  rw [Antecedent.readAll_of_end consequent isEnd]
  exact ⟨rfl, by rw [Cursor.advance_rest, rest]; rfl⟩

private theorem readAll_and (consequent : String)
    (rest : cursor.rest = Token.keyword "and" :: more) :
    Antecedent.readAll consequent cursor =
      Antecedent.readAll consequent (cursor.advance 1) :=
  Antecedent.readAll_of_and consequent (Cursor.isAtEnd_of_rest rest)
    (by rw [Cursor.peek_of_rest rest]; rfl)

private theorem readAll_antecedent (consequent : String)
    {antecedent : Antecedent} (wellFormed : AntecedentWellFormed antecedent)
    (rest : cursor.rest = writeAntecedent asTokens antecedent ++ more) :
    (Antecedent.readAll consequent cursor).value =
        antecedent :: (Antecedent.readAll consequent (cursor.advance 3)).value ∧
      (Antecedent.readAll consequent cursor).cursor =
        (Antecedent.readAll consequent (cursor.advance 3)).cursor := by
  obtain ⟨_, _, notEnd, notAnd⟩ := wellFormed
  have peek : cursor.peek.value = antecedent.subject := by
    rw [Cursor.peek_of_rest rest]
    rfl
  have condition : (cursor.peekNth 2).value = antecedent.condition := by
    rw [Cursor.peekNth_of_rest rest]
    rfl
  rw [Antecedent.readAll_of_subject consequent (Cursor.isAtEnd_of_rest rest)
    (by rwa [peek]) (by rwa [peek]), peek, condition]
  exact ⟨rfl, rfl⟩

private theorem readAll_antecedents (consequent : String)
    {antecedents : List Antecedent}
    (wellFormed : ∀ antecedent ∈ antecedents, AntecedentWellFormed antecedent)
    (rest : cursor.rest =
      writeAntecedents asTokens antecedents ++ Token.keyword "end" :: after) :
    (Antecedent.readAll consequent cursor).value = antecedents ∧
      (Antecedent.readAll consequent cursor).cursor.rest = after := by
  induction antecedents generalizing cursor with
  | nil => exact readAll_end consequent rest
  | cons antecedent others ih =>
      have wellFormedOthers : ∀ other ∈ others, AntecedentWellFormed other :=
        fun other member =>
          wellFormed other (List.mem_cons_of_mem antecedent member)
      have wellFormedFirst := wellFormed antecedent List.mem_cons_self
      -- `end` follows the last antecedent, `and` every other one.
      cases others with
      | nil =>
          obtain ⟨values, cursors⟩ :=
            readAll_antecedent consequent wellFormedFirst rest
          have restAfter : (cursor.advance 3).rest =
              Token.keyword "end" :: after := by
            rw [Cursor.advance_rest, rest]
            rfl
          obtain ⟨noMore, stopsAt⟩ := readAll_end consequent restAfter
          rw [values, cursors, noMore]
          exact ⟨rfl, stopsAt⟩
      | cons next others =>
          rw [writeAntecedents, List.append_assoc] at rest
          · obtain ⟨values, cursors⟩ :=
              readAll_antecedent consequent wellFormedFirst rest
            have restAnd : (cursor.advance 3).rest = Token.keyword "and" ::
                (writeAntecedents asTokens (next :: others) ++
                  Token.keyword "end" :: after) := by
              rw [Cursor.advance_rest, rest]
              rfl
            have restAfter : ((cursor.advance 3).advance 1).rest =
                writeAntecedents asTokens (next :: others) ++
                  Token.keyword "end" :: after := by
              rw [Cursor.advance_rest, restAnd]
              rfl
            obtain ⟨otherValues, stopsAt⟩ := ih wellFormedOthers restAfter
            rw [values, cursors, readAll_and consequent restAnd, otherValues]
            exact ⟨rfl, stopsAt⟩
          · simp

private theorem read_rule {rule : Rule} (wellFormed : RuleWellFormed rule)
    (rest : cursor.rest = writeRule asTokens rule ++ after) :
    (Rule.read cursor).value = rule ∧
      (Rule.read cursor).cursor.rest = after := by
  have restAfter : (cursor.advance 3).rest =
      writeAntecedents asTokens rule.antecedents ++
        Token.keyword "end" :: after := by
    rw [Cursor.advance_rest, rest]
    simp [writeRule, asTokens]
  have found : (cursor.peekNth 1).value = rule.consequent := by
    rw [Cursor.peekNth_of_rest rest]
    rfl
  obtain ⟨values, stopsAt⟩ :=
    readAll_antecedents rule.consequent wellFormed.2 restAfter
  simp only [Rule.read, found, values]
  exact ⟨trivial, stopsAt⟩

private theorem readAll_rules (rulebase : String) {rules : List Rule}
    (wellFormed : ∀ rule ∈ rules, RuleWellFormed rule)
    (rest : cursor.rest =
      rules.flatMap (writeRule asTokens) ++ Token.keyword "end" :: after) :
    (Rule.readAll rulebase cursor).value = rules ∧
      (Rule.readAll rulebase cursor).cursor.rest = after := by
  induction rules generalizing cursor with
  | nil =>
      have isEnd : cursor.peek.value = "end" := by
        rw [Cursor.peek_of_rest rest]
        rfl
      rw [Rule.readAll_of_end rulebase isEnd]
      exact ⟨rfl, by rw [Cursor.advance_rest, rest]; rfl⟩
  | cons rule others ih =>
      have wellFormedOthers : ∀ other ∈ others, RuleWellFormed other :=
        fun other member => wellFormed other (List.mem_cons_of_mem rule member)
      rw [List.flatMap_cons, List.append_assoc] at rest
      have isRule : cursor.peek.value = "rule" := by
        rw [Cursor.peek_of_rest rest]
        rfl
      obtain ⟨value, restAfter⟩ :=
        read_rule (wellFormed rule List.mem_cons_self) rest
      obtain ⟨otherValues, stopsAt⟩ := ih wellFormedOthers restAfter
      rw [Rule.readAll_of_rule rulebase (Cursor.isAtEnd_of_rest rest) isRule]
      exact ⟨congrArg₂ List.cons value otherValues, stopsAt⟩

theorem read_unmatched {scope : Scope} {id : Nat} {name : String}
    {rules : List Rule} (unmatched : scope.universeId? name = none)
    (rest : cursor.rest =
      (Block.ofRulebase name rules).write asTokens ++ after) :
    (Rulebase.readBody scope id cursor).value = ⟨id, name, none, []⟩ ∧
      (Rulebase.readBody scope id cursor).cursor = cursor.advance 3 := by
  have found : (cursor.peekNth 1).value = name := by
    rw [Cursor.peekNth_of_rest rest]
    rfl
  simp [Rulebase.readBody, found, unmatched]

theorem read_rulebase {scope : Scope} {id consequent : Nat} {name : String}
    {rules : List Rule} (wellFormed : ∀ rule ∈ rules, RuleWellFormed rule)
    (matched : scope.universeId? name = some consequent)
    (rest : cursor.rest =
      (Block.ofRulebase name rules).write asTokens ++ after) :
    (Rulebase.readBody scope id cursor).value =
      ⟨id, name, some consequent, rules⟩ ∧
      (Rulebase.readBody scope id cursor).cursor.rest = after := by
  have found : (cursor.peekNth 1).value = name := by
    rw [Cursor.peekNth_of_rest rest]
    rfl
  have restAfter : (cursor.advance 2).rest =
      rules.flatMap (writeRule asTokens) ++ Token.keyword "end" :: after := by
    rw [Cursor.advance_rest, rest]
    simp [Block.write, asTokens]
  obtain ⟨values, stopsAt⟩ := readAll_rules name wellFormed restAfter
  simp [Rulebase.readBody, found, matched, values, stopsAt]

end Rules

end Program

end FuzzyRules
