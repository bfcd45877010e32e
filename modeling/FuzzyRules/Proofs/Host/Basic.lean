import FuzzyRules.Script.Basic
import Mathlib

namespace FuzzyRules

/-! A call that announces parts opens slots for them, and parts go into the
slots opened last. No new owner is accepted while slots are free. -/

namespace Host

structure Slots (α : Type) where
  announced : Nat
  items : List α
  deriving DecidableEq, Repr

namespace Slots

variable {α : Type}

def ofLength (announced : Nat) : Slots α :=
  ⟨announced, []⟩

def filled (items : List α) : Slots α :=
  ⟨items.length, items⟩

def Full (slots : Slots α) : Prop :=
  slots.items.length = slots.announced
  deriving Decidable

def add? (slots : Slots α) (item : α) : Option (Slots α) :=
  if slots.items.length < slots.announced then
    some { slots with items := slots.items ++ [item] }
  else none

def changeLast? (slots : Slots α) (change : α → Option α) :
    Option (Slots α) := do
  let last ← slots.items.getLast?
  return { slots with items := slots.items.dropLast ++ [← change last] }

end Slots

structure Universe where
  id : Nat
  elements : Slots (String × String)
  deriving DecidableEq, Repr

abbrev Rule := Slots Target

structure Rulebase where
  id : Nat
  consequent : Option Nat
  rules : Slots Rule
  deriving DecidableEq, Repr

structure State where
  universes : Slots Universe
  rulebases : Slots Rulebase
  deriving DecidableEq, Repr

def Rulebase.Settled (rulebase : Rulebase) : Prop :=
  rulebase.rules.Full ∧ ∀ rule ∈ rulebase.rules.items, rule.Full
  deriving Decidable

/-- No owner waits for parts. The script may announce more owners than it
brings. -/
def State.Settled (state : State) : Prop :=
  (∀ u ∈ state.universes.items, u.elements.Full) ∧
    ∀ rulebase ∈ state.rulebases.items, rulebase.Settled
  deriving Decidable

inductive Request where
  | init (universes rulebases : Nat)
  | initUniverse (id elements : Nat)
  | addElement (x y : String)
  | initRulebase (id rules : Nat) (consequent : Option Nat)
  | addRule (index antecedents : Nat)
  | addAntecedent (target : Target)
  deriving DecidableEq, Repr

def Universe.addElement? (x y : String) (u : Universe) : Option Universe := do
  return { u with elements := ← u.elements.add? (x, y) }

def Rulebase.addRule? (index antecedents : Nat) (rulebase : Rulebase) :
    Option Rulebase := do
  guard ((∀ rule ∈ rulebase.rules.items, rule.Full) ∧
    index = rulebase.rules.items.length)
  return { rulebase with rules :=
    ← rulebase.rules.add? (.ofLength antecedents) }

def Rulebase.addAntecedent? (target : Target) (rulebase : Rulebase) :
    Option Rulebase := do
  return { rulebase with rules := ← rulebase.rules.changeLast? (·.add? target) }

namespace State

def start (universes rulebases : Nat) : State :=
  ⟨.ofLength universes, .ofLength rulebases⟩

def step (state : State) : Request → Option State
  | .init _ _ => none
  | .initUniverse id elements => do
      guard state.Settled
      return { state with universes :=
        ← state.universes.add? ⟨id, .ofLength elements⟩ }
  | .addElement x y => do
      return { state with universes :=
        ← state.universes.changeLast? (Universe.addElement? x y) }
  | .initRulebase id rules consequent => do
      guard state.Settled
      return { state with
        rulebases := ← state.rulebases.add? ⟨id, consequent, .ofLength rules⟩ }
  | .addRule index antecedents => do
      return { state with
        rulebases :=
          ← state.rulebases.changeLast? (Rulebase.addRule? index antecedents) }
  | .addAntecedent target => do
      return { state with
        rulebases :=
          ← state.rulebases.changeLast? (Rulebase.addAntecedent? target) }

def run (state : State) (requests : List Request) : Option State :=
  requests.foldlM step state

end State

/-- The first call has to be the one that starts the host. -/
def serve : List Request → Option State
  | .init universes rulebases :: requests => do
      let finish ← (State.start universes rulebases).run requests
      guard finish.Settled
      return finish
  | _ => none

def withoutComment : List Char → List Char
  | '/' :: '/' :: _ => []
  | c :: rest => c :: withoutComment rest
  | [] => []

/-- Minus one stands for what is missing. -/
def reference? (text : String) : Option (Option Nat) :=
  if text = "-1" then some none else text.toNat?.map some

def Request.of? : String → List String → Option Request
  | "FRI_init", [universes, rulebases] => do
      return .init (← universes.toNat?) (← rulebases.toNat?)
  | "FRI_initUniverseById", [id, elements] => do
      return .initUniverse (← id.toNat?) (← elements.toNat?)
  | "FRI_addUniverseElement", [x, y] => some (.addElement x y)
  | "FRI_initRuleBaseById", [id, rules, consequent] => do
      return .initRulebase (← id.toNat?) (← rules.toNat?)
        (← reference? consequent)
  | "FRI_addRuleToRulebase", [index, antecedents] => do
      return .addRule (← index.toNat?) (← antecedents.toNat?)
  | "FRI_addAntecedentToRule", [universeId, elementIndex] => do
      return .addAntecedent ⟨← reference? universeId, ← reference? elementIndex⟩
  | _, _ => none

def arguments (inside : List Char) : List String :=
  (inside.splitOn ',').map fun argument =>
    String.ofList (argument.dropWhile (· = ' '))

/-- The call that a statement consists of: a name, arguments in parentheses and
a semicolon. -/
def request? (statement : List Char) : Option Request :=
  let rest := (statement.dropWhile (· ≠ '(')).drop 1
  if rest.dropWhile (· ≠ ')') = [')', ';'] then
    Request.of? (String.ofList (statement.takeWhile (· ≠ '(')))
      (arguments (rest.takeWhile (· ≠ ')')))
  else none

def frame : List String :=
  ["", "int main()\x7b", "return 0;", "\x7d"]

/-- The calls on a line, one at most. -/
def readLine? (line : List Char) : Option (List Request) :=
  let statement := (withoutComment line).rdropWhile (· = ' ')
  if String.ofList statement ∈ frame then some []
  else (request? statement).map fun request => [request]

def read? (text : String) : Option (List Request) :=
  ((text.toList.splitOn '\n').mapM readLine?).map List.flatten

def replay (text : String) : Option State :=
  (read? text).bind serve

end Host

end FuzzyRules
