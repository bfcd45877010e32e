import FuzzyRules.Proofs.Compilation.Run

namespace FuzzyRules

namespace Script.Line

/-- The id, the number of elements and the name of a universe that is
announced. -/
def universe? : Line → Option (Nat × Nat × String)
  | call (.initUniverse id elements name) => some (id, elements, name)
  | _ => none

/-- The id, the number of rules, the consequent and the name of a rulebase that
is announced. -/
def rulebase? : Line → Option (Nat × Nat × Option Nat × String)
  | call (.initRulebase id rules consequent name) =>
      some (id, rules, consequent, name)
  | _ => none

def target? : Line → Option Target
  | call (.addAntecedent universeId elementIndex) =>
      some ⟨universeId, elementIndex⟩
  | _ => none

theorem universe?_eq_some_iff {line : Line} {id elements : Nat}
    {name : String} :
    line.universe? = some (id, elements, name) ↔
      line = .call (.initUniverse id elements name) := by
  constructor
  · intro found
    unfold universe? at found
    split at found
    · cases found
      rfl
    · cases found
  · intro isCall
    rw [isCall]
    rfl

end Script.Line

open Script

/-- A kind of lines that leaves out what belongs to the body of a declaration,
antecedents apart. -/
structure Script.Selective {α : Type} (kind : Line → Option α) : Prop where
  blank : kind .blank = none
  element : ∀ x y, kind (.call (.addElement x y)) = none
  rule : ∀ index antecedents, kind (.call (.addRule index antecedents)) = none

private theorem Script.selective_universe? : Selective Line.universe? :=
  ⟨rfl, fun _ _ => rfl, fun _ _ => rfl⟩

private theorem Script.selective_rulebase? : Selective Line.rulebase? :=
  ⟨rfl, fun _ _ => rfl, fun _ _ => rfl⟩

private theorem Script.selective_target? : Selective Line.target? :=
  ⟨rfl, fun _ _ => rfl, fun _ _ => rfl⟩

theorem Script.filterMap_cons {α : Type} (kind : Line → Option α) (line : Line)
    (lines : Script) :
    (line :: lines).filterMap kind =
      (kind line).toList ++ lines.filterMap kind := by
  rw [List.filterMap_cons]
  cases kind line <;> rfl

namespace Script.Selective

variable {α : Type} {kind : Line → Option α} (selective : Selective kind)

include selective

theorem filterMap_blank : [Line.blank].filterMap kind = [] := by
  rw [filterMap_cons, selective.blank]
  rfl

theorem filterMap_universe (u : Universe) :
    u.lines.filterMap kind =
      (kind (.call (.initUniverse u.id u.elements.length u.name))).toList := by
  have elements : (u.elements.map Element.line).filterMap kind = [] := by
    rw [List.filterMap_eq_nil_iff, List.forall_mem_map]
    intro element _
    exact selective.element element.x element.y
  rw [Universe.lines, List.cons_append, filterMap_cons, List.filterMap_append,
    elements, selective.filterMap_blank]
  exact List.append_nil _

theorem filterMap_rule (scope : Scope) (index : Nat) (rule : Rule) :
    (rule.lines scope index).filterMap kind =
      rule.antecedents.filterMap fun antecedent =>
        kind (scope.resolve antecedent).line := by
  rw [Rule.lines, List.cons_append, filterMap_cons, selective.rule,
    List.filterMap_append, selective.filterMap_blank, List.append_nil,
    List.filterMap_map]
  rfl

theorem filterMap_rules (scope : Scope) (rules : List Rule) :
    ((rules.mapIdx fun index rule => rule.lines scope index).flatten).filterMap
      kind =
      (rules.flatMap Rule.antecedents).filterMap fun antecedent =>
        kind (scope.resolve antecedent).line := by
  -- The index changes the first line of a rule only, and that line is left out.
  have each : ((rules.mapIdx fun index rule => rule.lines scope index).map
      (List.filterMap kind)) =
      rules.map fun rule => rule.antecedents.filterMap fun antecedent =>
        kind (scope.resolve antecedent).line := by
    apply List.ext_getElem
    · simp
    · intro index _ _
      simp [selective.filterMap_rule]
  rw [List.filterMap_flatten, each, List.filterMap_flatMap, List.flatMap_def]

theorem filterMap_rulebase (scope : Scope) {rulebase : Rulebase}
    (consistent : rulebase.consequent = none → rulebase.rules = []) :
    (rulebase.lines scope).filterMap kind =
      (kind (.call
        (.initRulebase rulebase.id rulebase.rules.length rulebase.consequent
          rulebase.name))).toList ++
      (rulebase.rules.flatMap Rule.antecedents).filterMap fun antecedent =>
        kind (scope.resolve antecedent).line := by
  obtain ⟨id, name, consequent, rules⟩ := rulebase
  cases consequent with
  | none =>
      obtain rfl : rules = [] := consistent rfl
      change (_ :: [Line.blank]).filterMap kind = _
      rw [filterMap_cons, selective.filterMap_blank]
      rfl
  | some consequent =>
      rw [Rulebase.lines, List.cons_append, filterMap_cons,
        List.filterMap_append, selective.filterMap_rules,
        selective.filterMap_blank, List.append_nil]

end Script.Selective

namespace Declaration

/-- The antecedents of a rulebase, rule by rule. -/
def antecedents : Declaration → List Antecedent
  | ofUniverse _ => []
  | ofRulebase _ rulebase => rulebase.rules.flatMap Rule.antecedents

theorem filterMap_universe? {declaration : Declaration}
    (consistent : declaration.Consistent) :
    declaration.lines.filterMap Line.universe? =
      declaration.universe?.toList.map fun u =>
        (u.id, u.elements.length, u.name) := by
  cases declaration with
  | ofUniverse u => exact selective_universe?.filterMap_universe u
  | ofRulebase scope rulebase =>
      rw [lines, selective_universe?.filterMap_rulebase scope consistent]
      exact List.filterMap_eq_nil_iff.mpr fun _ _ => rfl

theorem filterMap_rulebase? {declaration : Declaration}
    (consistent : declaration.Consistent) :
    declaration.lines.filterMap Line.rulebase? =
      declaration.rulebase?.toList.map fun (_, rulebase) =>
        (rulebase.id, rulebase.rules.length, rulebase.consequent,
          rulebase.name) := by
  cases declaration with
  | ofUniverse u => exact selective_rulebase?.filterMap_universe u
  | ofRulebase scope rulebase =>
      rw [lines, selective_rulebase?.filterMap_rulebase scope consistent]
      have noAntecedent : (rulebase.rules.flatMap Rule.antecedents).filterMap
          (fun antecedent => Line.rulebase? (scope.resolve antecedent).line) =
            [] :=
        List.filterMap_eq_nil_iff.mpr fun _ _ => rfl
      rw [noAntecedent]
      rfl

/-- Each antecedent is added as what it points to in the scope of its
rulebase. -/
theorem filterMap_target? {scope : Scope} {rulebase : Rulebase}
    (consistent : (ofRulebase scope rulebase).Consistent) :
    (rulebase.lines scope).filterMap Line.target? =
      (ofRulebase scope rulebase).antecedents.map scope.resolve := by
  rw [selective_target?.filterMap_rulebase scope consistent]
  exact congrFun List.filterMap_eq_map _

theorem length_filterMap_target? {declaration : Declaration}
    (consistent : declaration.Consistent) :
    (declaration.lines.filterMap Line.target?).length =
      declaration.antecedents.length := by
  cases declaration with
  | ofUniverse u =>
      exact congrArg List.length (selective_target?.filterMap_universe u)
  | ofRulebase scope rulebase =>
      rw [lines, filterMap_target? consistent, List.length_map]

end Declaration

private theorem filterMap_lines {α β : Type} {kind : Line → Option α}
    {part? : Declaration → Option β} {announced : β → α}
    {declarations : List Declaration}
    (each : ∀ declaration ∈ declarations, declaration.lines.filterMap kind =
      (part? declaration).toList.map announced) :
    (declarations.flatMap Declaration.lines).filterMap kind =
      (declarations.filterMap part?).map announced := by
  induction declarations with
  | nil => rfl
  | cons declaration others ih =>
      obtain ⟨first, rest⟩ := List.forall_mem_cons.mp each
      rw [List.flatMap_cons, List.filterMap_append, first, ih rest,
        List.filterMap_cons]
      cases part? declaration <;> rfl

section Declarations

variable {declarations : List Declaration}
  (consistent : ∀ declaration ∈ declarations, declaration.Consistent)

include consistent

theorem filterMap_universe?_lines :
    (declarations.flatMap Declaration.lines).filterMap Line.universe? =
      (declarations.filterMap Declaration.universe?).map fun u =>
        (u.id, u.elements.length, u.name) := by
  apply filterMap_lines
  intro declaration member
  exact Declaration.filterMap_universe? (consistent declaration member)

theorem filterMap_rulebase?_lines :
    (declarations.flatMap Declaration.lines).filterMap Line.rulebase? =
      (declarations.filterMap Declaration.rulebase?).map fun (_, rulebase) =>
        (rulebase.id, rulebase.rules.length, rulebase.consequent,
          rulebase.name) := by
  apply filterMap_lines
  intro declaration member
  exact Declaration.filterMap_rulebase? (consistent declaration member)

end Declarations

end FuzzyRules
