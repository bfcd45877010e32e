import FuzzyRules.Token.Basic
import FuzzyRules.Token.Pattern

namespace FuzzyRules

def isSeparator (c : Char) : Bool :=
  c = ' ' || c = '\t' || c = '\r' || c = '\n'

def isLineBreak (c : Char) : Bool :=
  c = '\r' || c = '\n'

def isWordChar (c : Char) : Bool :=
  !isSeparator c && c ≠ '"' && c ≠ '#'

def keywords : List String :=
  ["universe", "rulebase", "rule", "when", "and", "is", "end"]

namespace Grammar

/-- From a hash up to the end of its line. -/
def comment : Pattern :=
  .andThen (.exactly ['#']) (.many fun c => !isLineBreak c)

/-- No word goes on here. -/
def wordEnd : Pattern :=
  .notAhead (.one isWordChar)

def keyword : Pattern :=
  .andThen (.anyOf (keywords.map String.toList)) wordEnd

/-- Everything up to the next quote; nothing in it is escaped. -/
def interior : Pattern :=
  .many fun c => c ≠ '"'

def string : Pattern :=
  .andThen (.exactly ['"']) (.andThen interior (.exactly ['"']))

def digits : Pattern :=
  .some1 Char.isDigit

def fraction : Pattern :=
  .andThen (.exactly ['.']) digits

def exponent : Pattern :=
  .andThen (.orElse (.exactly ['e']) (.exactly ['E']))
    (.andThen (.optional (.orElse (.exactly ['+']) (.exactly ['-']))) digits)

def numeral : Pattern :=
  .andThen (.optional (.exactly ['-']))
    (.andThen digits (.andThen (.optional fraction) (.optional exponent)))

def number : Pattern :=
  .andThen numeral wordEnd

def other : Pattern :=
  .some1 isWordChar

end Grammar

namespace Token

inductive Rule where
  | keyword
  | string
  | number
  | other

namespace Rule

def pattern : Rule → Pattern
  | keyword => Grammar.keyword
  | string => Grammar.string
  | number => Grammar.number
  | other => Grammar.other

/-- The token for the text that a rule takes; a string loses its quotes. -/
def token : Rule → List Char → Token
  | keyword, text => ⟨.keyword, String.ofList text⟩
  | string, text => ⟨.literal, String.ofList text.tail.dropLast⟩
  | number, text => ⟨.literal, String.ofList text⟩
  | other, text => ⟨.other, String.ofList text⟩

def read? (rule : Rule) (text : List Char) : Option (Token × List Char) :=
  (rule.pattern.split? text).map fun (taken, rest) => (rule.token taken, rest)

private theorem consumes_pattern (rule : Rule) :
    rule.pattern.consumes = true := by
  cases rule <;> rfl

end Rule

/-- The first token of a text that starts with one, and the rest. -/
def next? (text : List Char) : Option (Token × List Char) :=
  [Rule.keyword, Rule.string, Rule.number, Rule.other].findSome? fun rule =>
    rule.read? text

theorem length_rest_lt_of_next? {text rest : List Char} {token : Token}
    (next : next? text = some (token, rest)) : rest.length < text.length := by
  obtain ⟨rule, _, read⟩ := List.exists_of_findSome?_eq_some next
  obtain ⟨⟨taken, others⟩, split, same⟩ := Option.map_eq_some_iff.mp read
  cases same
  exact Pattern.length_rest_lt_of_split? rule.consumes_pattern split

end Token

end FuzzyRules
