import FuzzyRules.Text.Quoted

namespace FuzzyRules

inductive Token.Kind where
  | keyword
  | literal
  | other
  | empty
  deriving DecidableEq, Repr

structure Token where
  kind : Token.Kind
  value : String
  deriving DecidableEq, Repr

namespace Token

/-- What is read where no token stands. -/
def empty : Token :=
  ⟨.empty, ""⟩

def keyword (value : String) : Token :=
  ⟨.keyword, value⟩

def isKeyword (token : Token) (value : String) : Bool :=
  token.kind = .keyword && token.value = value

theorem eq_keyword_of_isKeyword {token : Token} {value : String}
    (isKeyword : token.isKeyword value = true) : token = keyword value := by
  rw [Token.isKeyword, Bool.and_eq_true, decide_eq_true_eq,
    decide_eq_true_eq] at isKeyword
  obtain ⟨kind, value⟩ := token
  obtain ⟨rfl, rfl⟩ := isKeyword
  rfl

def Kind.text : Kind → String
  | keyword => "keyword"
  | literal => "literal"
  | other => "other"
  | empty => "empty"

def text (token : Token) : String :=
  token.kind.text ++ " " ++ Text.quote token.value

def upToEmpty (tokens : List Token) : List Token :=
  tokens.takeWhile fun token => token.kind ≠ .empty

def countKeyword (tokens : List Token) (value : String) : Nat :=
  tokens.countP fun token => token.isKeyword value

def listing (tokens : List Token) : String :=
  String.join (tokens.map fun token => token.text ++ "\n")

end Token

end FuzzyRules
