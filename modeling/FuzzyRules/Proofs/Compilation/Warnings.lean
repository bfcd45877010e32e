import FuzzyRules.Proofs.Number.Text
import FuzzyRules.Proofs.Rulebase.Reading
import FuzzyRules.Proofs.Script.Text

namespace FuzzyRules

open Script

/-! Each place where a script lacks a universe, an element or a number shows in
its text, and raises one warning. -/

namespace Script

/-- How many arguments at some places of a function's calls have a text. -/
def Line.argumentCount (function : String) (places : List Nat) (text : String) :
    Line → Nat
  | call c =>
      if c.function = function then
        places.countP fun place => c.arguments[place]? = some text
      else 0
  | _ => 0

def argumentCount (function : String) (places : List Nat) (text : String)
    (script : Script) : Nat :=
  (script.map (Line.argumentCount function places text)).sum

end Script

/-- The things that the arguments of a script can lack. -/
inductive Degradation where
  | unmatchedRulebase
  | unknownUniverse
  | unknownCondition
  | notANumber

namespace Degradation

def message : Degradation → String
  | unmatchedRulebase => "rulebase does not match any universe, skipping"
  | unknownUniverse => "antecedent universe not found"
  | unknownCondition => "antecedent condition not found"
  | notANumber => "coordinate is not a number"

def function : Degradation → String
  | unmatchedRulebase => "FRI_initRuleBaseById"
  | unknownUniverse | unknownCondition => "FRI_addAntecedentToRule"
  | notANumber => "FRI_addUniverseElement"

/-- The places of the arguments in question. -/
def places : Degradation → List Nat
  | unmatchedRulebase => [2]
  | unknownUniverse => [0]
  | unknownCondition => [1]
  | notANumber => [0, 1]

/-- What stands in for the argument. -/
def text : Degradation → String
  | unmatchedRulebase | unknownUniverse | unknownCondition => "-1"
  | notANumber => "NAN"

variable (degradation : Degradation)

def warns (diagnostic : Diagnostic) : Bool :=
  diagnostic.level = .warn ∧ diagnostic.message = degradation.message

def warnings (diagnostics : List Diagnostic) : Nat :=
  diagnostics.countP degradation.warns

def lineCost (line : Line) : Nat :=
  line.argumentCount degradation.function degradation.places degradation.text

def cost (script : Script) : Nat :=
  script.argumentCount degradation.function degradation.places degradation.text

theorem warnings_append (first second : List Diagnostic) :
    degradation.warnings (first ++ second) =
      degradation.warnings first + degradation.warnings second :=
  List.countP_append

theorem cost_cons (line : Line) (script : Script) :
    degradation.cost (line :: script) =
      degradation.lineCost line + degradation.cost script :=
  List.sum_cons

theorem cost_append (first second : Script) :
    degradation.cost (first ++ second) =
      degradation.cost first + degradation.cost second := by
  unfold cost argumentCount
  rw [List.map_append, List.sum_append]

/-- The messages of diagnostics that no argument has to do with. -/
def unrelated : List String :=
  ["compiling", "universe", "rulebase", "ignoring text after coordinate",
    "input ended inside rulebase"] ++ Rule.messages

private theorem message_notMem_unrelated : degradation.message ∉ unrelated := by
  cases degradation <;> decide

theorem warnings_of_unrelated {diagnostics : List Diagnostic}
    (about : ∀ diagnostic ∈ diagnostics, diagnostic.message ∈ unrelated) :
    degradation.warnings diagnostics = 0 := by
  apply List.countP_eq_zero.mpr
  intro diagnostic member warns
  have same : diagnostic.message = degradation.message :=
    (of_decide_eq_true warns).2
  exact degradation.message_notMem_unrelated (same ▸ about diagnostic member)

theorem warnings_of_message {diagnostic : Diagnostic} (message : String)
    (isMessage : diagnostic.message = message) (about : message ∈ unrelated) :
    degradation.warnings [diagnostic] = 0 := by
  apply degradation.warnings_of_unrelated
  intro other member
  rw [List.mem_singleton.mp member, isMessage]
  exact about

theorem warnings_warn {diagnostic : Diagnostic} (message : String)
    (isWarn : diagnostic.level = .warn)
    (worded : diagnostic.message = message) :
    degradation.warnings [diagnostic] =
      if degradation.message = message then 1 else 0 := by
  unfold warnings
  rw [List.countP_singleton]
  simp [warns, isWarn, worded, eq_comm]

end Degradation

private theorem Numeral.ne_nan_of_read? {text rest : List Char}
    {number : Binary64} (read : Numeral.read? text = some (number, rest)) :
    number ≠ .nan := by
  rw [Numeral.read?] at read
  obtain ⟨negative, digits⟩ := Numeral.readSign text
  dsimp only at read
  split at read
  · cases read
    simp
  · obtain ⟨⟨decimal, _⟩, _, isNumber⟩ := Option.map_eq_some_iff.mp read
    cases isNumber
    unfold Decimal.toBinary64 Binary64.ofRank
    split <;> simp

private theorem Rule.message_of_mem_readAll (rulebase : String)
    (cursor : Cursor) :
    ∀ diagnostic ∈ (Rule.readAll rulebase cursor).diagnostics,
      diagnostic.message ∈ Degradation.unrelated := by
  fun_induction Rule.readAll rulebase cursor with
  | case1 cursor isEnd => exact List.forall_mem_nil _
  | case2 cursor notEnd atEnd =>
      intro diagnostic member
      cases List.mem_singleton.mp member
      exact (by decide : "input ended inside rulebase" ∈ Degradation.unrelated)
  | case3 cursor notEnd inside isRule first others ih =>
      intro diagnostic member
      rcases List.mem_append.mp member with here | later
      · exact List.mem_append_right _
          (Rule.message_of_mem_read cursor diagnostic here)
      · exact ih diagnostic later
  | case4 cursor notEnd inside notRule ih => exact ih

namespace Degradation

variable (degradation : Degradation)

private theorem warnings_coordinate (universeName element text : String) :
    degradation.warnings (Coordinate.diagnostics universeName element text) =
      if degradation.message = "coordinate is not a number" ∧
        Coordinate.value text = .nan then 1
      else 0 := by
  unfold Coordinate.diagnostics Coordinate.value
  cases read : Numeral.read? text.toList with
  | none =>
      rw [warnings_warn degradation "coordinate is not a number" rfl rfl]
      simp
  | some found =>
      obtain ⟨number, rest⟩ := found
      have isNumber := Numeral.ne_nan_of_read? read
      cases rest with
      | nil => simp [warnings, isNumber]
      | cons c others =>
          change degradation.warnings [_] = _
          rw [warnings_of_message _ "ignoring text after coordinate" rfl
            (by decide)]
          simp [isNumber]

/-- An element is warned of once for each of its coordinates that is no
number. -/
theorem warnings_element (universeName element x y : String) :
    degradation.warnings (Coordinate.diagnostics universeName element x) +
        degradation.warnings (Coordinate.diagnostics universeName element y) =
      degradation.lineCost
        (.call (.addElement (Coordinate.value x) (Coordinate.value y))) := by
  rw [warnings_coordinate, warnings_coordinate]
  cases degradation with
  | unmatchedRulebase | unknownUniverse | unknownCondition => rfl
  | notANumber =>
      simp [lineCost, Line.argumentCount, message, function, places, text,
        Call.function, Call.arguments, Binary64.text_eq_nan_iff,
        List.countP_cons, Nat.add_comm]

private theorem warnings_unresolved (scope : Scope) (antecedent : Antecedent) :
    degradation.warnings (scope.unresolved antecedent) =
      (if degradation.message = "antecedent universe not found" ∧
          (scope.resolve antecedent).universeId = none then 1 else 0) +
        if degradation.message = "antecedent condition not found" ∧
          (scope.resolve antecedent).elementIndex = none then 1 else 0 := by
  unfold Scope.unresolved
  rw [warnings_append]
  congr 1
  · split
    · next unknown =>
        rw [warnings_warn degradation "antecedent universe not found" rfl rfl]
        simp [unknown]
    · next known => simp [warnings, known]
  · split
    · next unknown =>
        rw [warnings_warn degradation "antecedent condition not found" rfl rfl]
        simp [unknown]
    · next known => simp [warnings, known]

private theorem warnings_antecedent (scope : Scope) (antecedent : Antecedent) :
    degradation.warnings (scope.unresolved antecedent) =
      degradation.lineCost (scope.resolve antecedent).line := by
  rw [warnings_unresolved]
  cases degradation with
  | unmatchedRulebase | notANumber => rfl
  | unknownUniverse | unknownCondition =>
      simp [lineCost, Target.line, Line.argumentCount, message, function,
        places, text, Call.function, Call.arguments, referenceText_eq_minus_iff,
        List.countP_singleton]

private theorem lineCost_initRulebase (id rules : Nat) (name : String)
    (consequent : Option Nat) :
    degradation.lineCost (.call (.initRulebase id rules consequent name)) =
      if consequent = none then degradation.warnings [.unmatchedRulebase name]
      else 0 := by
  rw [warnings_warn degradation "rulebase does not match any universe, skipping"
    rfl rfl]
  cases degradation with
  | unmatchedRulebase =>
      simp [lineCost, Line.argumentCount, message, function, places, text,
        Call.function, Call.arguments, referenceText_eq_minus_iff,
        List.countP_singleton]
  | unknownUniverse | unknownCondition | notANumber => exact (ite_self 0).symm

private theorem lineCost_init (universes rulebases : Nat) :
    degradation.lineCost (.call (.init universes rulebases)) = 0 := by
  cases degradation <;> rfl

private theorem lineCost_initUniverse (id elements : Nat) (name : String) :
    degradation.lineCost (.call (.initUniverse id elements name)) = 0 := by
  cases degradation <;> rfl

private theorem lineCost_addRule (index antecedents : Nat) :
    degradation.lineCost (.call (.addRule index antecedents)) = 0 := by
  cases degradation <;> rfl

private theorem warnings_mismatch (cursor : Cursor) (expected : String) :
    degradation.warnings (cursor.mismatch expected) = 0 := by
  apply degradation.warnings_of_unrelated
  intro diagnostic member
  rw [Cursor.message_of_mem_mismatch diagnostic member]
  decide

private theorem warnings_elements (universeName : String) (cursor : Cursor) :
    degradation.warnings (Element.readAll universeName cursor).diagnostics =
      degradation.cost
        ((Element.readAll universeName cursor).value.map Element.line) := by
  fun_induction Element.readAll universeName cursor with
  | case1 cursor literal first others ih =>
      rw [List.map_cons, cost_cons, warnings_append, ih]
      congr 1
      exact (warnings_append degradation _ _).trans
        (degradation.warnings_element _ _ _ _)
  | case2 cursor notLiteral => rfl

private theorem warnings_universe (scope : Scope) (cursor : Cursor) :
    degradation.warnings (Universe.read scope cursor).diagnostics =
      degradation.cost (Universe.read scope cursor).value.lines := by
  have elements :=
    degradation.warnings_elements (cursor.peekNth 1).value (cursor.advance 2)
  change degradation.warnings (_ ++ _ ++ [_]) =
    degradation.cost (_ :: _ ++ [.blank])
  rw [warnings_append, warnings_append, warnings_mismatch,
    warnings_of_message _ "universe" rfl (by decide), elements,
    List.cons_append, cost_cons, lineCost_initUniverse, cost_append,
    Nat.zero_add]
  rfl

private theorem warnings_rule (scope : Scope) (index : Nat) (rule : Rule) :
    degradation.warnings (rule.unresolved scope) =
      degradation.cost (rule.lines scope index) := by
  have antecedents :
      degradation.warnings (rule.antecedents.flatMap scope.unresolved) =
      degradation.cost
        (rule.antecedents.map fun antecedent =>
          (scope.resolve antecedent).line) := by
    induction rule.antecedents with
    | nil => rfl
    | cons antecedent others ih =>
        rw [List.flatMap_cons, warnings_append, ih, warnings_antecedent,
          List.map_cons, cost_cons]
  rw [Rule.unresolved, antecedents, Rule.lines, List.cons_append, cost_cons,
    lineCost_addRule, cost_append, Nat.zero_add]
  rfl

/-- The index with which the lines of a rule are written changes nothing about
what they cost. -/
theorem warnings_rules {scope : Scope} (rules : List Rule)
    {lines : Nat → Rule → Script}
    (each : ∀ index rule, degradation.warnings (rule.unresolved scope) =
      degradation.cost (lines index rule)) :
    degradation.warnings (rules.flatMap (Rule.unresolved scope)) =
      degradation.cost (rules.mapIdx lines).flatten := by
  induction rules generalizing lines with
  | nil => rfl
  | cons rule others ih =>
      rw [List.flatMap_cons, warnings_append, List.mapIdx_cons,
        List.flatten_cons, cost_append, each 0 rule,
        ih fun index => each (index + 1)]

private theorem warnings_rulebase (scope : Scope) (id : Nat) (cursor : Cursor) :
    degradation.warnings ((Rulebase.readBody scope id cursor).diagnostics ++
        (Rulebase.readBody scope id cursor).value.unresolved scope) =
      degradation.cost
        ((Rulebase.readBody scope id cursor).value.lines scope) := by
  cases matched : scope.universeId? (cursor.peekNth 1).value with
  | none =>
      rw [Rulebase.readBody_of_unmatched matched]
      change degradation.warnings [_] = degradation.cost [_, .blank]
      rw [cost_cons, lineCost_initRulebase, if_pos rfl]
      rfl
  | some consequent =>
      have rules := degradation.warnings_rules
        (Rule.readAll (cursor.peekNth 1).value (cursor.advance 2)).value
        (degradation.warnings_rule scope)
      have reading : degradation.warnings
          (Rule.readAll (cursor.peekNth 1).value
            (cursor.advance 2)).diagnostics = 0 :=
        degradation.warnings_of_unrelated (Rule.message_of_mem_readAll _ _)
      rw [Rulebase.readBody, matched]
      change degradation.warnings (_ ++ [_] ++ List.flatMap _ _) =
        degradation.cost (_ :: _ ++ [.blank])
      rw [warnings_append, warnings_append, reading,
        warnings_of_message _ "rulebase" rfl (by decide), rules,
        List.cons_append, cost_cons, lineCost_initRulebase, if_neg (by simp),
        cost_append]
      rfl

theorem step_warnings {progress next : Progress}
    (stepped : progress.step = .ok next)
    (balanced : degradation.warnings progress.diagnostics.toList =
      degradation.cost progress.lines.toList) :
    degradation.warnings next.diagnostics.toList =
      degradation.cost next.lines.toList := by
  rcases Progress.step_cases stepped with ⟨_, rfl⟩ | ⟨_, _, rfl⟩ | ⟨_, rfl⟩
  · rw [Progress.compileUniverse, Array.toList_appendList,
      Array.toList_appendList, warnings_append, cost_append, balanced]
    exact congrArg _ (degradation.warnings_universe _ _)
  · rw [Progress.afterRulebase, Array.toList_appendList,
      Array.toList_appendList, warnings_append, cost_append, balanced]
    exact congrArg _ (degradation.warnings_rulebase _ _ _)
  · exact balanced

theorem run_warnings {progress finish : Progress} {passed : List Progress}
    (reaches : Progress.Reaches progress passed finish)
    (balanced : degradation.warnings progress.diagnostics.toList =
      degradation.cost progress.lines.toList) :
    degradation.warnings finish.diagnostics.toList =
      degradation.cost finish.lines.toList := by
  induction reaches with
  | here => exact balanced
  | stepped inside step others ih =>
      exact ih (degradation.step_warnings step balanced)

private theorem cost_program (universes rulebases : Nat) (body : Script) :
    degradation.cost (program universes rulebases body) =
      degradation.cost body := by
  have before : degradation.cost (opening universes rulebases) = 0 := by
    change degradation.cost
      (.entry :: .blank :: .call (.init universes rulebases) :: [.blank]) = 0
    rw [cost_cons, cost_cons, cost_cons, lineCost_init]
    rfl
  have behind : degradation.cost closing = 0 := rfl
  rw [program_eq, cost_append, cost_append, before, behind, Nat.zero_add,
    Nat.add_zero]

theorem compile_warnings {tokens : List Token} {script : Script}
    (compiled : (compile tokens).result = .ok script) :
    degradation.warnings (compile tokens).diagnostics =
      degradation.cost script := by
  obtain ⟨finish, ran, rfl⟩ := exists_run_of_compile compiled
  have raised : (compile tokens).diagnostics = finish.diagnostics.toList := by
    rw [compile, ran]
  rw [raised, cost_program]
  apply degradation.run_warnings (Progress.reaches_of_run_eq_ok ran).1
  exact warnings_of_message _ "compiling" rfl (by decide)

end Degradation

/-- In the compilation of a script there are as many warnings of each kind as
there are arguments for which something else stands in: consequents, universes
and conditions that are minus one, and coordinates that are no numbers. -/
theorem compile_warns_of_every_degradation {tokens : List Token}
    {script : Script} (compiled : (compile tokens).result = .ok script) :
    let warned (message : String) :=
      (compile tokens).diagnostics.countP fun diagnostic =>
        diagnostic.level = .warn ∧ diagnostic.message = message
    warned "rulebase does not match any universe, skipping" =
        script.argumentCount "FRI_initRuleBaseById" [2] "-1" ∧
      warned "antecedent universe not found" =
        script.argumentCount "FRI_addAntecedentToRule" [0] "-1" ∧
      warned "antecedent condition not found" =
        script.argumentCount "FRI_addAntecedentToRule" [1] "-1" ∧
      warned "coordinate is not a number" =
        script.argumentCount "FRI_addUniverseElement" [0, 1] "NAN" :=
  ⟨Degradation.unmatchedRulebase.compile_warnings compiled,
    Degradation.unknownUniverse.compile_warnings compiled,
    Degradation.unknownCondition.compile_warnings compiled,
    Degradation.notANumber.compile_warnings compiled⟩

/-- An element with a word for a number, a rulebase without a universe, whose
rule is never read, and a rule with an unknown condition and an unknown
universe. -/
def lacking : List Token :=
  [.keyword "universe", ⟨.literal, "u"⟩, ⟨.literal, "low"⟩, ⟨.other, "x"⟩,
    ⟨.other, "0"⟩, .keyword "end", .keyword "rulebase", ⟨.literal, "w"⟩,
    .keyword "rule", ⟨.literal, "low"⟩, .keyword "when", ⟨.literal, "w"⟩,
    .keyword "is", ⟨.literal, "low"⟩, .keyword "end", .keyword "end",
    .keyword "rulebase", ⟨.literal, "u"⟩, .keyword "rule", ⟨.literal, "low"⟩,
    .keyword "when", ⟨.literal, "u"⟩, .keyword "is", ⟨.literal, "high"⟩,
    .keyword "and", ⟨.literal, "w"⟩, .keyword "is", ⟨.literal, "low"⟩,
    .keyword "end", .keyword "end"]

def degraded : Script :=
  program 1 2
    [.call (.initUniverse 0 1 "u"), .call (.addElement .nan (.finite false 0)),
      .blank, .call (.initRulebase 0 0 none "w"), .blank,
      .call (.initRulebase 1 1 (some 0) "u"), .call (.addRule 0 2),
      .call (.addAntecedent (some 0) none), .call (.addAntecedent none none),
      .blank, .blank]

theorem compile_warns_of_lacking :
    let warned (message : String) :=
      (compile lacking).diagnostics.countP fun diagnostic =>
        diagnostic.level = .warn ∧ diagnostic.message = message
    (compile lacking).result = .ok degraded ∧
      warned "rulebase does not match any universe, skipping" = 1 ∧
      warned "antecedent universe not found" = 1 ∧
      warned "antecedent condition not found" = 2 ∧
      warned "coordinate is not a number" = 1 := by
  intro warned
  have compiled : (compile lacking).result = .ok degraded := by decide +kernel
  obtain ⟨rulebases, universes, conditions, coordinates⟩ :=
    compile_warns_of_every_degradation compiled
  refine ⟨compiled, ?_, ?_, ?_, ?_⟩
  · exact rulebases.trans (by decide +kernel)
  · exact universes.trans (by decide +kernel)
  · exact conditions.trans (by decide +kernel)
  · exact coordinates.trans (by decide +kernel)

end FuzzyRules
