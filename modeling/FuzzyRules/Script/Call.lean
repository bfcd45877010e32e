import FuzzyRules.Number.Decimal

namespace FuzzyRules

/-! A call that adds a part names no owner: the part belongs to the owner that
was announced last, so the order of calls carries meaning. -/

/-- How a script writes a coordinate: names of constants for what is not finite,
`0` for both zeros, and otherwise the fewest digits that read back, in
positional form. -/
def Binary64.text : Binary64 → String
  | nan => "NAN"
  | infinite negative => (if negative then "-" else "") ++ "INFINITY"
  | finite negative rank =>
      if rank.val = 0 then "0"
      else (if negative then "-" else "") ++ (Decimal.shortest rank.val).text

/-- How a script writes an id or index that may be missing. -/
def referenceText : Option Nat → String
  | none => "-1"
  | some id => Nat.repr id

inductive Call where
  /-- Announces how many universes and rulebases the source speaks of. -/
  | init (universes rulebases : Nat)
  | initUniverse (id elements : Nat) (name : String)
  | addElement (x y : Binary64)
  | initRulebase (id rules : Nat) (consequent : Option Nat) (name : String)
  | addRule (index antecedents : Nat)
  | addAntecedent (universeId elementIndex : Option Nat)
  deriving DecidableEq, Repr

namespace Call

def function : Call → String
  | init .. => "FRI_init"
  | initUniverse .. => "FRI_initUniverseById"
  | addElement .. => "FRI_addUniverseElement"
  | initRulebase .. => "FRI_initRuleBaseById"
  | addRule .. => "FRI_addRuleToRulebase"
  | addAntecedent .. => "FRI_addAntecedentToRule"

def arguments : Call → List String
  | init universes rulebases => [Nat.repr universes, Nat.repr rulebases]
  | initUniverse id elements _ => [Nat.repr id, Nat.repr elements]
  | addElement x y => [x.text, y.text]
  | initRulebase id rules consequent _ =>
      [Nat.repr id, Nat.repr rules, referenceText consequent]
  | addRule index antecedents => [Nat.repr index, Nat.repr antecedents]
  | addAntecedent universeId elementIndex =>
      [referenceText universeId, referenceText elementIndex]

/-- Names are of no use to the host and stand in comments. -/
def comment : Call → String
  | initUniverse _ _ name => " // Universe: " ++ name
  | initRulebase _ _ consequent name =>
      " // Rulebase: " ++ name ++
        (if consequent = none then " (INVALID)" else "")
  | _ => ""

def text (call : Call) : String :=
  call.function ++ "(" ++ ", ".intercalate call.arguments ++ ");" ++
    call.comment

end Call

end FuzzyRules
