import FuzzyRules.Scope
import FuzzyRules.Script.Call

namespace FuzzyRules

/-! Names are resolved when a line is written, so a rule can only refer to
universes declared before it. -/

inductive Script.Line where
  | blank
  | entry
  | call (c : Call)
  | success
  | exit
  deriving DecidableEq, Repr

def Script.Line.text : Script.Line → String
  | blank => ""
  | entry => "int main()\x7b"
  | call c => c.text
  | success => "return 0;"
  | exit => "\x7d"

abbrev Script := List Script.Line

namespace Script

def text (script : Script) : String :=
  String.join (script.map fun line => line.text ++ "\n")

def initLines (universes rulebases : Nat) : Script :=
  [.call (.init universes rulebases), .blank]

/-- The whole program around the lines of its declarations. -/
def program (universes rulebases : Nat) (body : Script) : Script :=
  [.entry, .blank] ++ initLines universes rulebases ++ body ++
    [.blank, .success, .exit]

end Script

def Element.line (element : Element) : Script.Line :=
  .call (.addElement element.x element.y)

def Universe.lines (u : Universe) : Script :=
  .call (.initUniverse u.id u.elements.length u.name) ::
    u.elements.map Element.line ++ [.blank]

def Target.line (target : Target) : Script.Line :=
  .call (.addAntecedent target.universeId target.elementIndex)

def Rule.lines (scope : Scope) (index : Nat) (rule : Rule) : Script :=
  .call (.addRule index rule.antecedents.length) ::
    rule.antecedents.map (fun antecedent => (scope.resolve antecedent).line) ++
      [.blank]

/-- A rulebase without a consequent is announced and its rules are left out. -/
def Rulebase.lines (scope : Scope) (rulebase : Rulebase) : Script :=
  let first := .call
    (.initRulebase rulebase.id rulebase.rules.length rulebase.consequent
      rulebase.name)
  match rulebase.consequent with
  | none => [first, .blank]
  | some _ =>
      first :: (rulebase.rules.mapIdx fun index rule =>
        rule.lines scope index).flatten ++ [.blank]

def Rule.unresolved (scope : Scope) (rule : Rule) : List Diagnostic :=
  rule.antecedents.flatMap scope.unresolved

def Rulebase.unresolved (scope : Scope) (rulebase : Rulebase) :
    List Diagnostic :=
  match rulebase.consequent with
  | none => []
  | some _ => rulebase.rules.flatMap (Rule.unresolved scope)

end FuzzyRules
