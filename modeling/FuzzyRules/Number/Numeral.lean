import FuzzyRules.Number.Decimal

namespace FuzzyRules.Numeral

def digitValue (c : Char) : Nat :=
  c.toNat - '0'.toNat

def natural (digits : List Char) : Nat :=
  digits.foldl (fun value c => 10 * value + digitValue c) 0

/-- The size of an exponent. Once it has reached 65536 further digits do not
count, which bounds the work that a numeral can ask for. -/
def exponentSize (digits : List Char) : Nat :=
  digits.foldl
    (fun value c => if value < 65536 then 10 * value + digitValue c else value)
    0

def readSign : List Char → Bool × List Char
  | '-' :: rest => (true, rest)
  | '+' :: rest => (false, rest)
  | rest => (false, rest)

def readFraction : List Char → List Char × List Char
  | '.' :: rest => (rest.takeWhile Char.isDigit, rest.dropWhile Char.isDigit)
  | rest => ([], rest)

/-- An exponent, if a complete one comes first; without digits there is none. -/
def readExponent : List Char → Int × List Char
  | [] => (0, [])
  | mark :: rest =>
      let (negative, digits) := readSign rest
      let size := digits.takeWhile Char.isDigit
      if (mark = 'e' ∨ mark = 'E') ∧ size ≠ [] then
        (if negative then -exponentSize size else exponentSize size,
          digits.dropWhile Char.isDigit)
      else (0, mark :: rest)

/-- The longest decimal numeral without a sign that a text starts with, and the
rest. -/
def readDecimal? (cs : List Char) : Option (Decimal × List Char) :=
  let whole := cs.takeWhile Char.isDigit
  let (fraction, afterFraction) := readFraction (cs.dropWhile Char.isDigit)
  let (exponent, rest) := readExponent afterFraction
  if whole = [] ∧ fraction = [] then none
  else some (⟨natural (whole ++ fraction), exponent - fraction.length⟩, rest)

def infinityWord : List Char := "Infinity".toList

/-- The value of the longest numeral that a text starts with, and the rest of
the text. -/
def read? (cs : List Char) : Option (Binary64 × List Char) :=
  let (negative, unsigned) := readSign cs
  if infinityWord.isPrefixOf unsigned then
    some (.infinite negative, unsigned.drop infinityWord.length)
  else
    (readDecimal? unsigned).map fun (decimal, rest) =>
      (decimal.toBinary64 negative, rest)

end FuzzyRules.Numeral
