import FuzzyRules.Number.Numeral
import FuzzyRules.Proofs.Token.Word

open Computability

namespace FuzzyRules.Numeral

/-! Reading may go on behind a numeral at the front of a text, but never stops
inside of it. -/

def signs : Language Char :=
  1 + ({['+']} + {['-']})

/-- Digits with an optional point behind or among them, or a point with digits
behind it. -/
def mantissas : Language Char :=
  Word.digits * (1 + {['.']} * (Pattern.letter Char.isDigit)∗) +
    {['.']} * Word.digits

/-- An optional sign, and either the word for infinity or a mantissa with an
optional exponent. -/
def numerals : Language Char :=
  signs * {infinityWord} + signs * mantissas * (1 + Word.exponents)

inductive Sign where
  | none
  | plus
  | minus

namespace Sign

def text : Sign → List Char
  | none => []
  | plus => ['+']
  | minus => ['-']

def negative : Sign → Bool
  | none | plus => false
  | minus => true

end Sign

structure Mantissa where
  whole : List Char
  /-- The digits behind the point, if there is a point. -/
  fraction : Option (List Char)
  digits : ∀ c ∈ whole ++ fraction.getD [], c.isDigit = true
  nonempty : whole ++ fraction.getD [] ≠ []

def Mantissa.text (mantissa : Mantissa) : List Char :=
  mantissa.whole ++ mantissa.fraction.elim [] ('.' :: ·)

structure Exponent where
  mark : Char
  sign : Sign
  size : List Char
  isMark : mark = 'e' ∨ mark = 'E'
  digits : size ∈ Word.digits

namespace Exponent

def text (exponent : Exponent) : List Char :=
  exponent.mark :: (exponent.sign.text ++ exponent.size)

def value (exponent : Exponent) : Int :=
  if exponent.sign.negative then -exponentSize exponent.size
  else exponentSize exponent.size

end Exponent

inductive Form where
  | infinity (sign : Sign)
  | decimal (sign : Sign) (mantissa : Mantissa) (exponent : Option Exponent)

namespace Form

def text : Form → List Char
  | infinity sign => sign.text ++ infinityWord
  | decimal sign mantissa exponent =>
      sign.text ++ mantissa.text ++ exponent.elim [] Exponent.text

/-- The number nearest to the digits with the point and the exponent taken into
account. -/
def value : Form → Binary64
  | infinity sign => .infinite sign.negative
  | decimal sign mantissa exponent =>
      let fraction := mantissa.fraction.getD []
      Decimal.toBinary64 sign.negative
        ⟨natural (mantissa.whole ++ fraction),
          exponent.elim 0 Exponent.value - fraction.length⟩

end Form

private theorem mem_signs_iff {word : List Char} :
    word ∈ signs ↔ ∃ sign : Sign, sign.text = word := by
  constructor
  · rintro (nothing | plus | minus)
    · exact ⟨.none, ((Language.mem_one word).mp nothing).symm⟩
    · exact ⟨.plus, plus.symm⟩
    · exact ⟨.minus, minus.symm⟩
  · rintro ⟨sign, rfl⟩
    cases sign with
    | none => exact Or.inl rfl
    | plus => exact Or.inr (Or.inl rfl)
    | minus => exact Or.inr (Or.inr rfl)

private theorem mem_mantissas_iff {word : List Char} :
    word ∈ mantissas ↔ ∃ mantissa : Mantissa, mantissa.text = word := by
  constructor
  · rintro (⟨whole, isWhole, _, nothing |
      ⟨_, point, fraction, isFraction, rfl⟩, rfl⟩ |
      ⟨_, point, fraction, isFraction, rfl⟩)
    · obtain ⟨nonempty, digits⟩ := Word.mem_digits.mp isWhole
      cases (Language.mem_one _).mp nothing
      exact ⟨⟨whole, none, by simpa using digits, by simpa using nonempty⟩, rfl⟩
    · obtain ⟨nonempty, wholeDigits⟩ := Word.mem_digits.mp isWhole
      cases Pattern.mem_exactly.mp point
      have digits := List.forall_mem_append.mpr
        ⟨wholeDigits, Pattern.mem_kstar_letter.mp isFraction⟩
      exact ⟨⟨whole, some fraction, digits,
        List.append_ne_nil_of_left_ne_nil nonempty _⟩, rfl⟩
    · obtain ⟨nonempty, digits⟩ := Word.mem_digits.mp isFraction
      cases Pattern.mem_exactly.mp point
      exact ⟨⟨[], some fraction, digits, nonempty⟩, rfl⟩
  · rintro ⟨⟨whole, _ | fraction, digits, nonempty⟩, rfl⟩
    · refine Or.inl ⟨whole, Word.mem_digits.mpr ?_, [], Or.inl rfl, rfl⟩
      simpa using And.intro nonempty digits
    · obtain ⟨wholeDigits, fractionDigits⟩ := List.forall_mem_append.mp digits
      by_cases empty : whole = []
      · subst empty
        exact Or.inr ⟨['.'], rfl, fraction,
          Word.mem_digits.mpr ⟨nonempty, fractionDigits⟩, rfl⟩
      · refine Or.inl ⟨whole, Word.mem_digits.mpr ⟨empty, wholeDigits⟩,
          '.' :: fraction, ?_, rfl⟩
        exact Or.inr ⟨['.'], rfl, fraction,
          Pattern.mem_kstar_letter.mpr fractionDigits, rfl⟩

private theorem mem_exponents_iff {word : List Char} :
    word ∈ Word.exponents ↔ ∃ exponent : Exponent, exponent.text = word := by
  constructor
  · rintro ⟨_, ⟨_, isMark, _, isSign, rfl⟩, size, digits, rfl⟩
    obtain ⟨sign, rfl⟩ := mem_signs_iff.mp isSign
    rcases isMark with small | capital
    · cases Pattern.mem_exactly.mp small
      exact ⟨⟨'e', sign, size, Or.inl rfl, digits⟩, rfl⟩
    · cases Pattern.mem_exactly.mp capital
      exact ⟨⟨'E', sign, size, Or.inr rfl, digits⟩, rfl⟩
  · rintro ⟨⟨mark, sign, size, isMark, digits⟩, rfl⟩
    have isMarkText : [mark] ∈ ({['e']} + {['E']} : Language Char) := by
      rcases isMark with rfl | rfl
      · exact Or.inl rfl
      · exact Or.inr rfl
    exact ⟨_, ⟨[mark], isMarkText, sign.text, mem_signs_iff.mpr ⟨sign, rfl⟩,
      rfl⟩, size, digits, rfl⟩

theorem mem_numerals_iff {word : List Char} :
    word ∈ numerals ↔ ∃ form : Form, form.text = word := by
  constructor
  · rintro (⟨_, isSign, _, infinity, rfl⟩ |
      ⟨_, ⟨_, isSign, _, isMantissa, rfl⟩, _, nothing | isExponent, rfl⟩)
    · obtain ⟨sign, rfl⟩ := mem_signs_iff.mp isSign
      cases Pattern.mem_exactly.mp infinity
      exact ⟨.infinity sign, rfl⟩
    · obtain ⟨sign, rfl⟩ := mem_signs_iff.mp isSign
      obtain ⟨mantissa, rfl⟩ := mem_mantissas_iff.mp isMantissa
      cases (Language.mem_one _).mp nothing
      exact ⟨.decimal sign mantissa none, rfl⟩
    · obtain ⟨sign, rfl⟩ := mem_signs_iff.mp isSign
      obtain ⟨mantissa, rfl⟩ := mem_mantissas_iff.mp isMantissa
      obtain ⟨exponent, rfl⟩ := mem_exponents_iff.mp isExponent
      exact ⟨.decimal sign mantissa (some exponent), rfl⟩
  · rintro ⟨sign | ⟨sign, mantissa, _ | exponent⟩, rfl⟩
    · exact Or.inl ⟨_, mem_signs_iff.mpr ⟨sign, rfl⟩, _, rfl, rfl⟩
    · exact Or.inr ⟨_, ⟨_, mem_signs_iff.mpr ⟨sign, rfl⟩, _,
        mem_mantissas_iff.mpr ⟨mantissa, rfl⟩, rfl⟩, [], Or.inl rfl, rfl⟩
    · exact Or.inr ⟨_, ⟨_, mem_signs_iff.mpr ⟨sign, rfl⟩, _,
        mem_mantissas_iff.mpr ⟨mantissa, rfl⟩, rfl⟩, _,
        Or.inr (mem_exponents_iff.mpr ⟨exponent, rfl⟩), rfl⟩

theorem readExponent_cons (mark : Char) (rest : List Char) :
    readExponent (mark :: rest) =
      let size := (readSign rest).2.takeWhile Char.isDigit
      if (mark = 'e' ∨ mark = 'E') ∧ size ≠ [] then
        (if (readSign rest).1 then -(exponentSize size : Int)
          else exponentSize size,
          (readSign rest).2.dropWhile Char.isDigit)
      else (0, mark :: rest) := rfl

theorem readDecimal?_eq (text : List Char) :
    readDecimal? text =
      let whole := text.takeWhile Char.isDigit
      let fraction := readFraction (text.dropWhile Char.isDigit)
      let exponent := readExponent fraction.2
      if whole ++ fraction.1 = [] then none
      else some (⟨natural (whole ++ fraction.1),
        exponent.1 - fraction.1.length⟩, exponent.2) := by
  simp only [List.append_eq_nil_iff]
  rfl

theorem read?_eq (text : List Char) :
    read? text =
      if infinityWord <+: (readSign text).2 then
        some (.infinite (readSign text).1,
          (readSign text).2.drop infinityWord.length)
      else
        (readDecimal? (readSign text).2).map fun (decimal, rest) =>
          (decimal.toBinary64 (readSign text).1, rest) := by
  simp only [← List.isPrefixOf_iff_prefix]
  rfl

theorem exists_sign (text : List Char) :
    ∃ sign : Sign, text = sign.text ++ (readSign text).2 ∧
      (readSign text).1 = sign.negative := by
  unfold readSign
  split
  · exact ⟨.minus, rfl, rfl⟩
  · exact ⟨.plus, rfl, rfl⟩
  · exact ⟨.none, rfl, rfl⟩

theorem readFraction_cases (text : List Char) :
    (∃ rest, text = '.' :: rest ∧
      readFraction text =
        (rest.takeWhile Char.isDigit, rest.dropWhile Char.isDigit)) ∨
    (Stops (· = '.') text ∧ readFraction text = ([], text)) := by
  unfold readFraction
  split
  · next rest => exact Or.inl ⟨rest, rfl, rfl⟩
  · next noPoint =>
      refine Or.inr ⟨?_, rfl⟩
      cases text with
      | nil => trivial
      | cons c rest =>
          rw [Stops.cons_iff, decide_eq_false_iff_not]
          rintro rfl
          exact noPoint rest rfl

private theorem exists_mantissa {text : List Char}
    (digit : text.takeWhile Char.isDigit ++
      (readFraction (text.dropWhile Char.isDigit)).1 ≠ []) :
    ∃ mantissa : Mantissa,
      text = mantissa.text ++ (readFraction (text.dropWhile Char.isDigit)).2 ∧
      mantissa.whole = text.takeWhile Char.isDigit ∧
      mantissa.fraction.getD [] =
        (readFraction (text.dropWhile Char.isDigit)).1 := by
  have wholeDigits : ∀ c ∈ text.takeWhile Char.isDigit, c.isDigit = true :=
    fun c => List.mem_takeWhile_imp
  obtain ⟨rest, pointed, read⟩ | ⟨_, read⟩ :=
    readFraction_cases (text.dropWhile Char.isDigit)
  · have fractionDigits : ∀ c ∈ rest.takeWhile Char.isDigit, c.isDigit = true :=
      fun c => List.mem_takeWhile_imp
    rw [read] at digit ⊢
    refine ⟨⟨text.takeWhile Char.isDigit, some (rest.takeWhile Char.isDigit),
      List.forall_mem_append.mpr ⟨wholeDigits, fractionDigits⟩, digit⟩, ?_, rfl,
      rfl⟩
    rw [Mantissa.text, Option.elim_some, List.append_assoc, List.cons_append,
      List.takeWhile_append_dropWhile, ← pointed,
      List.takeWhile_append_dropWhile]
  · rw [read] at digit ⊢
    refine ⟨⟨text.takeWhile Char.isDigit, none, by simpa using wholeDigits,
      digit⟩, ?_, rfl, rfl⟩
    rw [Mantissa.text, Option.elim_none, List.append_nil,
      List.takeWhile_append_dropWhile]

private theorem exists_exponent (text : List Char) :
    ∃ exponent : Option Exponent,
      text = exponent.elim [] Exponent.text ++ (readExponent text).2 ∧
      (readExponent text).1 = exponent.elim 0 Exponent.value := by
  cases text with
  | nil => exact ⟨none, rfl, rfl⟩
  | cons mark rest =>
      obtain ⟨sign, signed, negative⟩ := exists_sign rest
      rw [readExponent_cons]
      dsimp only
      split
      · next complete =>
          have digits : (readSign rest).2.takeWhile Char.isDigit ∈
              Word.digits :=
            Word.mem_digits.mpr ⟨complete.2, fun c => List.mem_takeWhile_imp⟩
          refine ⟨some ⟨mark, sign, _, complete.1, digits⟩, ?_, ?_⟩
          · rw [Option.elim_some, Exponent.text, List.cons_append,
              List.append_assoc, List.takeWhile_append_dropWhile, ← signed]
          · rw [Option.elim_some, Exponent.value, negative]
      · exact ⟨none, rfl, rfl⟩

private theorem length_readExponent_le (text : List Char) :
    (readExponent text).2.length ≤ text.length := by
  obtain ⟨exponent, parts, _⟩ := exists_exponent text
  nth_rewrite 2 [parts]
  rw [List.length_append]
  exact Nat.le_add_left _ _

/-- What is read at the front of a text is a numeral with its value. -/
theorem exists_form {text rest : List Char} {number : Binary64}
    (read : read? text = some (number, rest)) :
    ∃ form : Form, text = form.text ++ rest ∧ number = form.value := by
  obtain ⟨sign, signed, negative⟩ := exists_sign text
  rw [read?_eq, negative] at read
  split at read
  · next infinite =>
      cases read
      obtain ⟨others, isRest⟩ := infinite
      refine ⟨.infinity sign, ?_, rfl⟩
      rw [Form.text, List.append_assoc, ← isRest, List.drop_left, isRest]
      exact signed
  · obtain ⟨⟨decimal, _⟩, readDecimal, same⟩ := Option.map_eq_some_iff.mp read
    cases same
    rw [readDecimal?_eq] at readDecimal
    dsimp only at readDecimal
    split at readDecimal
    · cases readDecimal
    · next digit =>
        cases readDecimal
        obtain ⟨mantissa, afterSign, whole, fraction⟩ := exists_mantissa digit
        obtain ⟨exponent, afterMantissa, value⟩ := exists_exponent
          (readFraction ((readSign text).2.dropWhile Char.isDigit)).2
        refine ⟨.decimal sign mantissa exponent, ?_, ?_⟩
        · rw [Form.text, List.append_assoc, List.append_assoc, ← afterMantissa,
            ← afterSign]
          exact signed
        · rw [Form.value, whole, fraction, value]

/-! Parts of numerals in front of any text. Each reader takes the whole part,
and perhaps more. -/

def isSign (c : Char) : Bool :=
  c = '+' || c = '-'

private theorem isSign_of_isDigit {c : Char} (digit : c.isDigit = true) :
    isSign c = false := by
  rw [isSign, Bool.or_eq_false_iff, decide_eq_false_iff_not,
    decide_eq_false_iff_not]
  constructor <;> rintro rfl <;> simp at digit

theorem readSign_text (sign : Sign) {body : List Char}
    (unsigned : Stops isSign body) :
    readSign (sign.text ++ body) = (sign.negative, body) := by
  cases sign with
  | plus => rfl
  | minus => rfl
  | none =>
      change readSign body = (false, body)
      unfold readSign
      split
      · simp [isSign] at unsigned
      · simp [isSign] at unsigned
      · rfl

private theorem length_readFraction_le (text : List Char) :
    (readFraction text).2.length ≤ text.length := by
  obtain ⟨rest, rfl, read⟩ | ⟨_, read⟩ := readFraction_cases text
  · rw [read, List.length_cons]
    exact Nat.le_succ_of_le (List.length_dropWhile_le _ rest)
  · rw [read]

theorem readFraction_of_stops {text : List Char}
    (noPoint : Stops (· = '.') text) : readFraction text = ([], text) := by
  obtain ⟨rest, rfl, _⟩ | ⟨_, read⟩ := readFraction_cases text
  · simp at noPoint
  · exact read

namespace Mantissa

variable (mantissa : Mantissa) {more : List Char}

private theorem stops {accepts : Char → Bool}
    (noDigit : ∀ c, c.isDigit = true → accepts c = false)
    (noPoint : accepts '.' = false) :
    Stops accepts (mantissa.text ++ more) := by
  obtain ⟨_ | ⟨c, others⟩, _ | fraction, digits, nonempty⟩ := mantissa
  · exact absurd rfl nonempty
  · exact noPoint
  · exact noDigit c (digits c List.mem_cons_self)
  · exact noDigit c (digits c List.mem_cons_self)

private theorem read_of_stops (noDigit : Stops Char.isDigit more)
    (noPoint : Stops (· = '.') more) :
    (mantissa.text ++ more).takeWhile Char.isDigit = mantissa.whole ∧
      readFraction ((mantissa.text ++ more).dropWhile Char.isDigit) =
        (mantissa.fraction.getD [], more) := by
  obtain ⟨whole, _ | fraction, digits, nonempty⟩ := mantissa
  · have wholeDigits : ∀ c ∈ whole, c.isDigit = true := by simpa using digits
    rw [text, Option.elim_none, List.append_nil,
      noDigit.takeWhile_append wholeDigits,
      noDigit.dropWhile_append wholeDigits, readFraction_of_stops noPoint]
    exact ⟨rfl, rfl⟩
  · obtain ⟨wholeDigits, fractionDigits⟩ := List.forall_mem_append.mp digits
    rw [Option.getD_some] at fractionDigits
    have point : Stops Char.isDigit ('.' :: (fraction ++ more)) := rfl
    rw [text, Option.elim_some, List.append_assoc, List.cons_append,
      point.takeWhile_append wholeDigits, point.dropWhile_append wholeDigits,
      readFraction, noDigit.takeWhile_append fractionDigits,
      noDigit.dropWhile_append fractionDigits]
    exact ⟨rfl, rfl⟩

private theorem read_front (more : List Char) :
    (mantissa.text ++ more).takeWhile Char.isDigit ++
        (readFraction ((mantissa.text ++ more).dropWhile Char.isDigit)).1 ≠ [] ∧
      (readFraction ((mantissa.text ++ more).dropWhile Char.isDigit)).2.length ≤
        more.length := by
  obtain ⟨whole, _ | fraction, digits, nonempty⟩ := mantissa
  · have wholeDigits : ∀ c ∈ whole, c.isDigit = true := by simpa using digits
    have wholeNonempty : whole ≠ [] := by simpa using nonempty
    rw [text, Option.elim_none, List.append_nil,
      List.takeWhile_append_of_pos wholeDigits,
      List.dropWhile_append_of_pos wholeDigits, List.append_assoc]
    exact ⟨List.append_ne_nil_of_left_ne_nil wholeNonempty _,
      (length_readFraction_le _).trans (List.length_dropWhile_le _ more)⟩
  · obtain ⟨wholeDigits, fractionDigits⟩ := List.forall_mem_append.mp digits
    rw [Option.getD_some] at fractionDigits
    have point : Stops Char.isDigit ('.' :: (fraction ++ more)) := rfl
    rw [text, Option.elim_some, List.append_assoc, List.cons_append,
      point.takeWhile_append wholeDigits, point.dropWhile_append wholeDigits,
      readFraction, List.takeWhile_append_of_pos fractionDigits,
      List.dropWhile_append_of_pos fractionDigits, ← List.append_assoc]
    exact ⟨List.append_ne_nil_of_left_ne_nil nonempty _,
      List.length_dropWhile_le _ more⟩

end Mantissa

namespace Exponent

variable (exponent : Exponent)

private theorem read_front (more : List Char) :
    readExponent (exponent.text ++ more) =
      let size := exponent.size ++ more.takeWhile Char.isDigit
      (if exponent.sign.negative then -(exponentSize size : Int)
        else exponentSize size,
        more.dropWhile Char.isDigit) := by
  obtain ⟨nonempty, digits⟩ := Word.mem_digits.mp exponent.digits
  have unsigned : Stops isSign (exponent.size ++ more) :=
    Word.stops_digits exponent.digits fun _ => isSign_of_isDigit
  rw [text, List.cons_append, List.append_assoc, readExponent_cons,
    readSign_text exponent.sign unsigned]
  dsimp only
  rw [List.takeWhile_append_of_pos digits, List.dropWhile_append_of_pos digits,
    if_pos ⟨exponent.isMark, List.append_ne_nil_of_left_ne_nil nonempty _⟩]

private theorem stops (accepts : Char → Bool)
    (noMark : accepts 'e' = false ∧ accepts 'E' = false) (more : List Char) :
    Stops accepts (exponent.text ++ more) := by
  obtain ⟨mark, sign, size, rfl | rfl, digits⟩ := exponent
  · exact noMark.1
  · exact noMark.2

end Exponent

private theorem readDecimal?_text (mantissa : Mantissa)
    (exponent : Option Exponent) :
    readDecimal? (mantissa.text ++ exponent.elim [] Exponent.text) =
      some (⟨natural (mantissa.whole ++ mantissa.fraction.getD []),
        exponent.elim 0 Exponent.value - (mantissa.fraction.getD []).length⟩,
        []) := by
  have noDigit : Stops Char.isDigit (exponent.elim [] Exponent.text) := by
    cases exponent with
    | none => trivial
    | some exponent => simpa using exponent.stops Char.isDigit (by decide) []
  have noPoint : Stops (· = '.') (exponent.elim [] Exponent.text) := by
    cases exponent with
    | none => trivial
    | some exponent => simpa using exponent.stops (· = '.') (by decide) []
  have readExponent : readExponent (exponent.elim [] Exponent.text) =
      (exponent.elim 0 Exponent.value, []) := by
    cases exponent with
    | none => rfl
    | some exponent => simpa [Exponent.value] using exponent.read_front []
  obtain ⟨whole, fraction⟩ := mantissa.read_of_stops noDigit noPoint
  rw [readDecimal?_eq, whole, fraction]
  dsimp only
  rw [readExponent, if_neg mantissa.nonempty]

private theorem readDecimal?_front (mantissa : Mantissa)
    (exponent : Option Exponent) (more : List Char) :
    ∃ decimal rest,
      readDecimal? (mantissa.text ++ (exponent.elim [] Exponent.text ++ more)) =
        some (decimal, rest) ∧ rest.length ≤ more.length := by
  obtain ⟨digit, afterMantissa⟩ :=
    mantissa.read_front (exponent.elim [] Exponent.text ++ more)
  rw [readDecimal?_eq]
  dsimp only
  rw [if_neg digit]
  refine ⟨_, _, rfl, ?_⟩
  cases exponent with
  | none => exact (length_readExponent_le _).trans afterMantissa
  | some exponent =>
      -- The mark of the exponent ends the mantissa, so the exponent is read
      -- from its start on.
      obtain ⟨_, fraction⟩ := mantissa.read_of_stops
        (exponent.stops _ (by decide) more) (exponent.stops _ (by decide) more)
      rw [Option.elim_some, fraction, exponent.read_front]
      exact List.length_dropWhile_le _ more

private theorem read?_infinity (sign : Sign) (more : List Char) :
    read? (sign.text ++ (infinityWord ++ more)) =
      some (.infinite sign.negative, more) := by
  have unsigned : Stops isSign (infinityWord ++ more) := rfl
  rw [read?_eq, readSign_text sign unsigned, if_pos (List.prefix_append _ _),
    List.drop_left]

private theorem read?_decimal (sign : Sign) (mantissa : Mantissa)
    (more : List Char) :
    read? (sign.text ++ (mantissa.text ++ more)) =
      (readDecimal? (mantissa.text ++ more)).map fun (decimal, rest) =>
        (decimal.toBinary64 sign.negative, rest) := by
  have unsigned : Stops isSign (mantissa.text ++ more) :=
    mantissa.stops (fun _ => isSign_of_isDigit) rfl
  have finite : ¬infinityWord <+: mantissa.text ++ more := by
    have noCapital : Stops (· = 'I') (mantissa.text ++ more) := by
      refine mantissa.stops (fun c digit => ?_) (by decide)
      rw [decide_eq_false_iff_not]
      rintro rfl
      simp at digit
    rintro ⟨others, same⟩
    rw [← same] at noCapital
    exact Bool.noConfusion noCapital
  rw [read?_eq, readSign_text sign unsigned, if_neg finite]

/-- A text that is a numeral is read as a whole. -/
theorem read?_text (form : Form) : read? form.text = some (form.value, []) := by
  cases form with
  | infinity sign =>
      have read := read?_infinity sign []
      rwa [List.append_nil] at read
  | decimal sign mantissa exponent =>
      rw [Form.text, List.append_assoc, read?_decimal, readDecimal?_text]
      rfl

/-- No less than a numeral is read where one stands in front. -/
theorem read?_front (form : Form) (more : List Char) :
    ∃ number rest, read? (form.text ++ more) = some (number, rest) ∧
      rest.length ≤ more.length := by
  cases form with
  | infinity sign =>
      rw [Form.text, List.append_assoc]
      exact ⟨_, _, read?_infinity sign more, Nat.le_refl _⟩
  | decimal sign mantissa exponent =>
      obtain ⟨decimal, rest, read, shorter⟩ :=
        readDecimal?_front mantissa exponent more
      rw [Form.text, List.append_assoc, List.append_assoc, read?_decimal, read]
      exact ⟨_, rest, rfl, shorter⟩

theorem read?_eq_none_iff (text : List Char) :
    read? text = none ↔ ∀ front ∈ numerals, ¬front <+: text := by
  constructor
  · rintro nothing front member ⟨more, rfl⟩
    obtain ⟨form, rfl⟩ := mem_numerals_iff.mp member
    obtain ⟨number, rest, read, _⟩ := read?_front form more
    rw [read] at nothing
    cases nothing
  · intro absent
    cases read : read? text with
    | none => rfl
    | some found =>
        obtain ⟨form, rfl, _⟩ := exists_form read
        exact absurd (List.prefix_append _ _)
          (absent _ (mem_numerals_iff.mpr ⟨form, rfl⟩))

/-- The numerals at the front of a text are fronts of the one that is read. -/
theorem prefix_of_read? {text taken rest front : List Char} {number : Binary64}
    (read : read? text = some (number, rest)) (parts : text = taken ++ rest)
    (member : front ∈ numerals) (inFront : front <+: text) :
    front <+: taken := by
  obtain ⟨form, rfl⟩ := mem_numerals_iff.mp member
  obtain ⟨more, isText⟩ := inFront
  obtain ⟨number, left, readFront, shorter⟩ := read?_front form more
  rw [isText, read] at readFront
  cases readFront
  apply List.prefix_of_prefix_length_le ⟨more, isText⟩ ⟨rest, parts.symm⟩
  have lengths := congrArg List.length (isText.trans parts)
  rw [List.length_append, List.length_append] at lengths
  omega

end FuzzyRules.Numeral
