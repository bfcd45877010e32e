import FuzzyRules.Compilation
import FuzzyRules.Proofs.Token.Layout

namespace FuzzyRules

/-! A block refers to the universes before it only: a name stands for the first
of them that has it. -/

namespace Program

/-- An element as it is written, with the texts of its coordinates. -/
structure Entry where
  name : String
  x : String
  y : String
  deriving DecidableEq

inductive Block where
  | ofUniverse (name : String) (entries : List Entry)
  | ofRulebase (name : String) (rules : List Rule)
  deriving DecidableEq

def Quotable (name : String) : Prop :=
  '"' ∉ name.toList

instance (name : String) : Decidable (Quotable name) :=
  inferInstanceAs (Decidable ('"' ∉ name.toList))

def IsNumber (text : String) : Prop :=
  text.toList ∈ Word.numbers

instance (text : String) : Decidable (IsNumber text) :=
  inferInstanceAs (Decidable (text.toList ∈ Word.numbers))

def Entry.WellFormed (entry : Entry) : Prop :=
  Quotable entry.name ∧ IsNumber entry.x ∧ IsNumber entry.y
  deriving Decidable

/-- The name of a universe that ends or joins the antecedents of a rule cannot
start one. -/
def AntecedentWellFormed (antecedent : Antecedent) : Prop :=
  Quotable antecedent.subject ∧ Quotable antecedent.condition ∧
    antecedent.subject ≠ "end" ∧ antecedent.subject ≠ "and"
  deriving Decidable

def RuleWellFormed (rule : Rule) : Prop :=
  Quotable rule.consequent ∧
    ∀ antecedent ∈ rule.antecedents, AntecedentWellFormed antecedent
  deriving Decidable

def Block.WellFormed : Block → Prop
  | ofUniverse name entries =>
      Quotable name ∧ ∀ entry ∈ entries, entry.WellFormed
  | ofRulebase name rules => Quotable name ∧ ∀ rule ∈ rules, RuleWellFormed rule

instance : (block : Block) → Decidable block.WellFormed
  | .ofUniverse _ _ => inferInstanceAs (Decidable (_ ∧ _))
  | .ofRulebase _ _ => inferInstanceAs (Decidable (_ ∧ _))

structure Writer (α : Type) where
  keyword : String → α
  name : String → α
  number : String → α

section Writing

variable {α : Type} (writer : Writer α)

def Entry.write (entry : Entry) : List α :=
  [writer.name entry.name, writer.number entry.x, writer.number entry.y]

def writeAntecedent (antecedent : Antecedent) : List α :=
  [writer.name antecedent.subject, writer.keyword "is",
    writer.name antecedent.condition]

def writeAntecedents : List Antecedent → List α
  | [] => []
  | [antecedent] => writeAntecedent writer antecedent
  | antecedent :: antecedents =>
      writeAntecedent writer antecedent ++
        writer.keyword "and" :: writeAntecedents antecedents

def writeRule (rule : Rule) : List α :=
  [writer.keyword "rule", writer.name rule.consequent, writer.keyword "when"] ++
    writeAntecedents writer rule.antecedents ++ [writer.keyword "end"]

def Block.write : Block → List α
  | ofUniverse name entries =>
      [writer.keyword "universe", writer.name name] ++
        entries.flatMap (Entry.write writer) ++
        [writer.keyword "end"]
  | ofRulebase name rules =>
      [writer.keyword "rulebase", writer.name name] ++
        rules.flatMap (writeRule writer) ++
        [writer.keyword "end"]

end Writing

def asTokens : Writer Token where
  keyword := Token.keyword
  name := fun name => ⟨.literal, name⟩
  number := fun text => ⟨.literal, text⟩

/-- Names are put in quotes, keywords and numbers are not. -/
def asPieces : Writer Piece where
  keyword := fun keyword => .word keyword.toList
  name := fun name => .string name.toList
  number := fun text => .word text.toList

def tokens (blocks : List Block) : List Token :=
  blocks.flatMap (Block.write asTokens)

def pieces (blocks : List Block) : List Piece :=
  blocks.flatMap (Block.write asPieces)

def universes (blocks : List Block) : List (String × List String) :=
  blocks.filterMap fun
    | .ofUniverse name entries => some (name, entries.map Entry.name)
    | .ofRulebase _ _ => none

def rulebases (blocks : List Block) : List String :=
  blocks.filterMap fun
    | .ofUniverse _ _ => none
    | .ofRulebase name _ => some name

/-- The least id of a universe with a given name. -/
def universeId? (earlier : List Block) (name : String) : Option Nat :=
  ((universes earlier).map Prod.fst).idxOf? name

/-- The least index of an element with a given name in the universe with an
id. -/
def elementIndex? (earlier : List Block) (id : Nat) (name : String) :
    Option Nat :=
  (universes earlier)[id]?.bind fun (_, elements) => elements.idxOf? name

def Entry.text (entry : Entry) : String :=
  "FRI_addUniverseElement(" ++ (Coordinate.value entry.x).text ++ ", " ++
    (Coordinate.value entry.y).text ++ ");\n"

def antecedentText (earlier : List Block) (antecedent : Antecedent) : String :=
  let id := universeId? earlier antecedent.subject
  let index := id.bind fun id => elementIndex? earlier id antecedent.condition
  "FRI_addAntecedentToRule(" ++ referenceText id ++ ", " ++
    referenceText index ++ ");\n"

def ruleText (earlier : List Block) (index : Nat) (rule : Rule) : String :=
  "FRI_addRuleToRulebase(" ++ Nat.repr index ++ ", " ++
    Nat.repr rule.antecedents.length ++ ");\n" ++
    String.join (rule.antecedents.map (antecedentText earlier)) ++ "\n"

def universeText (id : Nat) (name : String) (entries : List Entry) : String :=
  "FRI_initUniverseById(" ++ Nat.repr id ++ ", " ++ Nat.repr entries.length ++
    "); // Universe: " ++ name ++ "\n" ++
    String.join (entries.map Entry.text) ++ "\n"

/-- A rulebase without a universe of its name comes to a placeholder. -/
def rulebaseText (earlier : List Block) (id : Nat) (name : String)
    (rules : List Rule) : Option Nat → String
  | none =>
      "FRI_initRuleBaseById(" ++ Nat.repr id ++ ", 0, -1); // Rulebase: " ++
        name ++ " (INVALID)\n\n"
  | some consequent =>
      "FRI_initRuleBaseById(" ++ Nat.repr id ++ ", " ++ Nat.repr rules.length ++
        ", " ++ Nat.repr consequent ++ "); // Rulebase: " ++ name ++ "\n" ++
        String.join (rules.mapIdx (ruleText earlier)) ++ "\n"

def Block.text (earlier : List Block) : Block → String
  | ofUniverse name entries =>
      universeText (universes earlier).length name entries
  | ofRulebase name rules =>
      rulebaseText earlier (rulebases earlier).length name rules
        (universeId? earlier name)

/-- The texts of blocks that follow `earlier` ones. -/
def textFrom (earlier : List Block) : List Block → String
  | [] => ""
  | block :: blocks =>
      block.text earlier ++ textFrom (earlier ++ [block]) blocks

def text (blocks : List Block) : String :=
  "int main()\x7b\n\n" ++
    "FRI_init(" ++ Nat.repr (universes blocks).length ++ ", " ++
    Nat.repr (rulebases blocks).length ++ ");\n\n" ++ textFrom [] blocks ++
    "\nreturn 0;\n\x7d\n"

end Program

end FuzzyRules
