import FuzzyRules.Error

namespace FuzzyRules

inductive Level where
  | error
  | warn
  | info
  | debug
  | trace
  deriving DecidableEq, Repr

namespace Level

def text : Level → String
  | error => "ERROR"
  | warn => "WARN"
  | info => "INFO"
  | debug => "DEBUG"
  | trace => "TRACE"

def detail : Level → Nat
  | error => 1
  | warn => 2
  | info => 3
  | debug => 4
  | trace => 5

end Level

inductive Diagnostic where
  | compiling (tokens universes rulebases : Nat)
  | universeRead (id : Nat) (name : String) (elements : Nat)
  /-- A rulebase with a universe of its name was read. -/
  | rulebaseRead (id : Nat) (name : String) (consequent : Nat) (rules : Nat)
  /-- A token was passed over in the place of another. -/
  | unexpectedToken (position : Nat) (expected : String) (found : Token)
  /-- Only the front of a coordinate's text is a number. -/
  | trailingText (universeName element value : String)
  /-- A coordinate's text does not start with a number. -/
  | notANumber (universeName element value : String)
  | unmatchedRulebase (name : String)
  | unfinishedRulebase (name : String)
  | unfinishedRule (consequent : String)
  | unknownUniverse (name : String)
  | unknownCondition (universeName condition : String)
  | failure (error : CompileError)
  deriving DecidableEq, Repr

namespace Diagnostic

inductive Field where
  | number (value : Nat)
  | text (value : String)
  deriving DecidableEq, Repr

def level : Diagnostic → Level
  | compiling .. | universeRead .. | rulebaseRead .. | unexpectedToken .. =>
      .debug
  | trailingText .. | notANumber .. | unmatchedRulebase _ | unfinishedRulebase _
  | unfinishedRule _ | unknownUniverse _ | unknownCondition .. => .warn
  | failure _ => .error

def message : Diagnostic → String
  | compiling .. => "compiling"
  | universeRead .. => "universe"
  | rulebaseRead .. => "rulebase"
  | unexpectedToken .. => "skipping unexpected token"
  | trailingText .. => "ignoring text after coordinate"
  | notANumber .. => "coordinate is not a number"
  | unmatchedRulebase _ => "rulebase does not match any universe, skipping"
  | unfinishedRulebase _ => "input ended inside rulebase"
  | unfinishedRule _ => "input ended inside rule"
  | unknownUniverse _ => "antecedent universe not found"
  | unknownCondition .. => "antecedent condition not found"
  | failure error => error.message

/-- The named fields; ids are texts and counts are numbers. -/
def fields : Diagnostic → List (String × Field)
  | compiling tokens universes rulebases =>
      [("tokens", .number tokens), ("universe_count", .number universes),
       ("rulebase_count", .number rulebases)]
  | universeRead id name elements =>
      [("id", .text (Nat.repr id)), ("name", .text name),
        ("elements", .number elements)]
  | rulebaseRead id name consequent rules =>
      [("id", .text (Nat.repr id)), ("name", .text name),
       ("consequent", .text (Nat.repr consequent)), ("rules", .number rules)]
  | unexpectedToken position expected found =>
      [("position", .number position), ("expected", .text expected),
        ("found", .text found.text)]
  | trailingText universeName element value
  | notANumber universeName element value =>
      [("universe", .text universeName), ("element", .text element),
        ("value", .text value)]
  | unmatchedRulebase name | unfinishedRulebase name =>
      [("rulebase", .text name)]
  | unfinishedRule consequent => [("rule", .text consequent)]
  | unknownUniverse name => [("universe", .text name)]
  | unknownCondition universeName condition =>
      [("universe", .text universeName), ("condition", .text condition)]
  | failure _ => []

def Field.written : Field → String
  | number value => Nat.repr value
  | text value => Text.quote value

def text (diagnostic : Diagnostic) : String :=
  diagnostic.level.text ++ " " ++ diagnostic.message ++
    String.join (diagnostic.fields.map fun (name, field) => " " ++ name ++
      "=" ++ field.written)

end Diagnostic

end FuzzyRules
