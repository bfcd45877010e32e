import FuzzyRules.Diagnostic
import FuzzyRules.Number.Binary64

namespace FuzzyRules

structure Element where
  name : String
  x : Binary64
  y : Binary64
  deriving DecidableEq, Repr

structure Universe where
  id : Nat
  name : String
  elements : List Element
  deriving DecidableEq, Repr

def Universe.elementIndex? (u : Universe) (name : String) : Option Nat :=
  u.elements.findIdx? fun element => element.name = name

/-- The condition that a universe has a value, both given by name. -/
structure Antecedent where
  subject : String
  condition : String
  deriving DecidableEq, Repr

structure Rule where
  consequent : String
  antecedents : List Antecedent
  deriving DecidableEq, Repr

/-- A rulebase that no universe matches has no consequent and no rules. -/
structure Rulebase where
  id : Nat
  name : String
  consequent : Option Nat
  rules : List Rule
  deriving DecidableEq, Repr

structure Scope where
  universes : List Universe := []
  /-- The id that each name stands for: that of the first universe declared with
  it. -/
  universeIds : List (String × Nat) := []
  rulebases : List String := []
  deriving DecidableEq, Repr

/-- What an antecedent points to: a universe, and an element of it. -/
structure Target where
  universeId : Option Nat
  elementIndex : Option Nat
  deriving DecidableEq, Repr

namespace Scope

def newUniverse (scope : Scope) (name : String) (elements : List Element) :
    Universe :=
  ⟨scope.universes.length, name, elements⟩

/-- A name that stands for a universe already keeps its id. -/
def declare (scope : Scope) (name : String) (elements : List Element) : Scope :=
  { scope with
    universes := scope.universes ++ [scope.newUniverse name elements]
    universeIds :=
      match scope.universeIds.lookup name with
      | none => (name, scope.universes.length) :: scope.universeIds
      | some _ => scope.universeIds }

def claim (scope : Scope) (name : String) : Except CompileError (Nat × Scope) :=
  if name ∈ scope.rulebases then .error (.duplicateRulebase name)
  else .ok (scope.rulebases.length,
    { scope with rulebases := scope.rulebases ++ [name] })

def universe? (scope : Scope) (id : Nat) : Option Universe :=
  scope.universes[id]?

def universeId? (scope : Scope) (name : String) : Option Nat :=
  scope.universeIds.lookup name

def resolve (scope : Scope) (antecedent : Antecedent) : Target :=
  let id := scope.universeId? antecedent.subject
  ⟨id, do (← scope.universe? (← id)).elementIndex? antecedent.condition⟩

/-- What remains unknown about an antecedent. -/
def unresolved (scope : Scope) (antecedent : Antecedent) : List Diagnostic :=
  let target := scope.resolve antecedent
  (if target.universeId =
    none then [.unknownUniverse antecedent.subject] else []) ++
    (if target.elementIndex = none then
      [.unknownCondition antecedent.subject antecedent.condition] else [])

end Scope

end FuzzyRules
