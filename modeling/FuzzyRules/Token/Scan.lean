import FuzzyRules.Token.Grammar

namespace FuzzyRules

/-- A place where no token can be read, the quote of a string that is never
closed: the text before it, and the text from there on. -/
structure ScanError where
  before : List Char
  after : List Char
  deriving DecidableEq, Repr

namespace Token

/-- What follows the separators and comments at the front of a text. -/
def afterGap (text : List Char) : List Char :=
  let start := text.dropWhile isSeparator
  match _comment : Grammar.comment.split? start with
  | none => start
  | some (_, rest) => afterGap rest
termination_by text.length
decreasing_by
  exact Nat.lt_of_lt_of_le (Pattern.length_rest_lt_of_split? rfl _comment)
    (List.dropWhile_sublist _).length_le

private theorem length_afterGap_le (text : List Char) :
    (afterGap text).length ≤ text.length := by
  fun_induction afterGap text with
  | case1 text start _ => exact (List.dropWhile_sublist _).length_le
  | case2 text start _ rest comment ih =>
      have shorter := Pattern.length_rest_lt_of_split? rfl comment
      have start_le : start.length ≤ text.length :=
        (List.dropWhile_sublist _).length_le
      omega

theorem afterGap_of_split?_eq_none {text : List Char}
    (refused : Grammar.comment.split? (text.dropWhile isSeparator) = none) :
    afterGap text = text.dropWhile isSeparator := by
  rw [afterGap]
  split
  · rfl
  · next found => rw [refused] at found; cases found

theorem afterGap_of_split?_eq_some {text taken rest : List Char}
    (split : Grammar.comment.split? (text.dropWhile isSeparator) =
      some (taken, rest)) : afterGap text = afterGap rest := by
  rw [afterGap]
  split
  · next refused => rw [split] at refused; cases refused
  · next found => rw [split] at found; cases found; rfl

/-- The tokens of a text, or the rest of the text from where no token can be
read. -/
def scanChars (text : List Char) : Except (List Char) (List Token) :=
  let start := afterGap text
  match _next : next? start with
  | some (token, rest) => (scanChars rest).map (token :: ·)
  | none => if start = [] then .ok [] else .error start
termination_by text.length
decreasing_by
  exact Nat.lt_of_lt_of_le (length_rest_lt_of_next? _next)
    (length_afterGap_le text)

theorem scanChars_of_next?_eq_some {text rest : List Char} {token : Token}
    (next : next? (afterGap text) = some (token, rest)) :
    scanChars text = (scanChars rest).map (token :: ·) := by
  rw [scanChars]
  split
  · next found => rw [next] at found; cases found; rfl
  · next refused => rw [next] at refused; cases refused

theorem scanChars_of_next?_eq_none {text : List Char}
    (refused : next? (afterGap text) = none) :
    scanChars text = if afterGap text =
      [] then .ok [] else .error (afterGap text) := by
  rw [scanChars]
  split
  · next found => rw [refused] at found; cases found
  · rfl

def scan (source : String) : Except ScanError (List Token) :=
  (scanChars source.toList).mapError fun after =>
    ⟨source.toList.take (source.toList.length - after.length), after⟩

end Token

namespace ScanError

/-- Lines are counted from one and end at a line feed. -/
def line (error : ScanError) : Nat :=
  error.before.count '\n' + 1

def indent (error : ScanError) : List Char :=
  (error.before.reverse.takeWhile (· ≠ '\n')).reverse

/-- Columns are counted from one, in characters. -/
def column (error : ScanError) : Nat :=
  error.indent.length + 1

def lineText (error : ScanError) : List Char :=
  (error.indent ++ error.after.takeWhile (· ≠ '\n')).filter (· ≠ '\r')

/-- What could have stood in place of the string. -/
def expected (error : ScanError) : String :=
  if error.before = [] then "program"
  else "EOI, keyword, string_literal, number, or other"

/-- Shows the line of the opening quote with a mark below the quote. -/
def detail (error : ScanError) : String :=
  let number := Nat.repr error.line
  let margin := String.ofList (List.replicate number.length ' ')
  let below := (error.lineText.take (error.column - 1)).map fun c =>
    if c = '\t' then '\t' else ' '
  "\n".intercalate
    [margin ++ "--> " ++ number ++ ":" ++ Nat.repr error.column,
     margin ++ " |",
     number ++ " | " ++ String.ofList error.lineText,
     margin ++ " | " ++ String.ofList below ++ "^---",
     margin ++ " |",
     margin ++ " = expected " ++ error.expected]

end ScanError

end FuzzyRules
