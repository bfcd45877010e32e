import FuzzyRules.Proofs.Token.Pattern
import FuzzyRules.Token.Grammar

open Computability

namespace FuzzyRules

/-! The rules look at the front of a text only, yet on a word their result
depends on the whole word. -/

namespace Word

def digits : Language Char :=
  Pattern.letter Char.isDigit * (Pattern.letter Char.isDigit)∗

def fractions : Language Char :=
  {['.']} * digits

def exponents : Language Char :=
  ({['e']} + {['E']}) * (1 + ({['+']} + {['-']})) * digits

/-- An optional minus, digits, an optional fraction and an optional exponent. -/
def numbers : Language Char :=
  (1 + {['-']}) * digits * (1 + fractions) * (1 + exponents)

end Word

theorem isWordChar_iff {c : Char} :
    isWordChar c = true ↔ c ≠ ' ' ∧ c ≠ '\t' ∧ c ≠ '\r' ∧ c ≠ '\n' ∧ c ≠ '"' ∧
      c ≠ '#' := by
  simp [isWordChar, isSeparator, and_assoc]

private theorem isWordChar_of_isDigit {c : Char} (digit : c.isDigit = true) :
    isWordChar c = true := by
  rw [isWordChar_iff]
  refine ⟨?_, ?_, ?_, ?_, ?_, ?_⟩ <;> rintro rfl <;> simp at digit

theorem isWordChar_of_mem_keywords {keyword : String}
    (member : keyword ∈ keywords) :
    ∀ c ∈ keyword.toList, isWordChar c = true := by
  have checked : ∀ keyword ∈ keywords,
      keyword.toList.all isWordChar = true := by decide
  exact List.all_eq_true.mp (checked keyword member)

theorem isWordChar_eq_false_of_isSeparator {c : Char}
    (separator : isSeparator c = true) : isWordChar c = false := by
  simp [isWordChar, separator]

private theorem isDigit_eq_false_of_stops {rest : List Char}
    (stops : Stops isWordChar rest) : Stops Char.isDigit rest :=
  stops.mono fun _ => isWordChar_of_isDigit

namespace Word

theorem mem_digits {text : List Char} :
    text ∈ digits ↔ text ≠ [] ∧ ∀ c ∈ text, c.isDigit = true := by
  rw [digits, Language.mem_mul]
  constructor
  · rintro ⟨_, ⟨c, digit, rfl⟩, others, allDigits, rfl⟩
    rw [Pattern.mem_kstar_letter] at allDigits
    simpa [digit] using allDigits
  · rintro ⟨nonempty, allDigits⟩
    cases text with
    | nil => exact absurd rfl nonempty
    | cons c others =>
        refine ⟨[c], ⟨c, allDigits c List.mem_cons_self, rfl⟩, others, ?_, rfl⟩
        exact Pattern.mem_kstar_letter.mpr fun d member =>
          allDigits d (List.mem_cons_of_mem c member)

private theorem language_numeral : Grammar.numeral.language = numbers := by
  simp only [Grammar.numeral, Grammar.fraction, Grammar.exponent,
    Grammar.digits, Pattern.some1, Pattern.language, numbers, fractions,
    exponents, digits, mul_assoc]

section Parts

variable {accepts : Char → Bool} {part rest : List Char}

private theorem takes_minus (member : part ∈ (1 + {['-']} : Language Char))
    (stops : Stops (· = '-') rest) :
    (Pattern.optional (.exactly ['-'])).Takes part rest := by
  rcases member with nothing | minus
  · cases (Language.mem_one part).mp nothing
    exact .optional_nil (Pattern.split?_exactly_of_stops stops)
  · cases Pattern.mem_exactly.mp minus
    exact .optional (.exactly _ _)

theorem takes_digits (member : part ∈ digits)
    (stops : Stops Char.isDigit rest) :
    Grammar.digits.Takes part rest := by
  obtain ⟨nonempty, allDigits⟩ := mem_digits.mp member
  exact .some1 nonempty allDigits stops

theorem stops_digits (member : part ∈ digits)
    (noDigit : ∀ c, c.isDigit = true → accepts c = false) :
    Stops accepts (part ++ rest) := by
  obtain ⟨nonempty, allDigits⟩ := mem_digits.mp member
  cases part with
  | nil => exact absurd rfl nonempty
  | cons c others => exact noDigit c (allDigits c List.mem_cons_self)

private theorem takes_fraction (member : part ∈ 1 + fractions)
    (noPoint : Stops (· = '.') rest) (noDigit : Stops Char.isDigit rest) :
    (Pattern.optional Grammar.fraction).Takes part rest := by
  rcases member with nothing | ⟨_, point, fraction, fractionMember, rfl⟩
  · cases (Language.mem_one part).mp nothing
    exact .optional_nil (Pattern.split?_andThen_of_none _
      (Pattern.split?_exactly_of_stops noPoint))
  · cases Pattern.mem_exactly.mp point
    exact .optional
      (.andThen (.exactly _ _) (takes_digits fractionMember noDigit))

private theorem stops_fraction (member : part ∈ 1 + fractions)
    (noPoint : accepts '.' = false) (stops : Stops accepts rest) :
    Stops accepts (part ++ rest) := by
  rcases member with nothing | ⟨_, point, fraction, _, rfl⟩
  · cases (Language.mem_one part).mp nothing
    exact stops
  · cases Pattern.mem_exactly.mp point
    exact noPoint

private theorem takes_mark
    (member : part ∈ ({['e']} + {['E']} : Language Char)) :
    (Pattern.orElse (.exactly ['e']) (.exactly ['E'])).Takes part rest := by
  rcases member with small | capital
  · cases Pattern.mem_exactly.mp small
    exact .orElse_left (.exactly _ _)
  · cases Pattern.mem_exactly.mp capital
    exact .orElse_right rfl (.exactly _ _)

private theorem takes_exponentSign
    (member : part ∈ 1 + ({['+']} + {['-']} : Language Char))
    (noSign : Stops (fun c => c = '+' || c = '-') rest) :
    (Pattern.optional (.orElse (.exactly ['+']) (.exactly ['-']))).Takes part
      rest := by
  rcases member with nothing | plus | minus
  · cases (Language.mem_one part).mp nothing
    have noPlus : Stops (· = '+') rest := noSign.mono (by simp)
    have noMinus : Stops (· = '-') rest := noSign.mono (by simp)
    exact .optional_nil
      (Pattern.split?_orElse_of_none (Pattern.split?_exactly_of_stops noPlus)
        (Pattern.split?_exactly_of_stops noMinus))
  · cases Pattern.mem_exactly.mp plus
    exact .optional (.orElse_left (.exactly _ _))
  · cases Pattern.mem_exactly.mp minus
    exact .optional (.orElse_right rfl (.exactly _ _))

private theorem takes_exponent (member : part ∈ 1 + exponents)
    (stops : Stops isWordChar rest) :
    (Pattern.optional Grammar.exponent).Takes part rest := by
  rcases member with nothing |
    ⟨_, ⟨mark, markMember, sign, signMember, rfl⟩, size, sizeMember, rfl⟩
  · cases (Language.mem_one part).mp nothing
    have noSmall : Stops (· = 'e') rest := stops.mono (by simp; decide)
    have noCapital : Stops (· = 'E') rest := stops.mono (by simp; decide)
    exact .optional_nil
      (Pattern.split?_andThen_of_none _
        (Pattern.split?_orElse_of_none
          (Pattern.split?_exactly_of_stops noSmall)
          (Pattern.split?_exactly_of_stops noCapital)))
  · have noSign : Stops (fun c => c = '+' || c = '-') (size ++ rest) := by
      refine stops_digits sizeMember fun c digit => ?_
      rw [Bool.or_eq_false_iff, decide_eq_false_iff_not,
        decide_eq_false_iff_not]
      constructor <;> rintro rfl <;> simp at digit
    have takesSize := takes_digits sizeMember (isDigit_eq_false_of_stops stops)
    have takesAll : Grammar.exponent.Takes (mark ++ (sign ++ size)) rest :=
      (takes_mark markMember).andThen
        ((takes_exponentSign signMember noSign).andThen takesSize)
    simpa only [List.append_assoc] using takesAll.optional

private theorem stops_exponent (member : part ∈ 1 + exponents)
    (noMark : accepts 'e' = false ∧ accepts 'E' = false)
    (stops : Stops accepts rest) : Stops accepts (part ++ rest) := by
  rcases member with
    nothing | ⟨_, ⟨_, small | capital, sign, _, rfl⟩, size, _, rfl⟩
  · cases (Language.mem_one part).mp nothing
    exact stops
  · cases Pattern.mem_exactly.mp small
    exact noMark.1
  · cases Pattern.mem_exactly.mp capital
    exact noMark.2

end Parts

private theorem takes_numeral {word rest : List Char} (member : word ∈ numbers)
    (stops : Stops isWordChar rest) : Grammar.numeral.Takes word rest := by
  obtain ⟨_, ⟨_, ⟨sign, signMember, whole, wholeMember, rfl⟩, fraction,
    fractionMember, rfl⟩, exponent, exponentMember, rfl⟩ := member
  have noDigit := isDigit_eq_false_of_stops stops
  have noPoint : Stops (· = '.') rest := stops.mono (by simp; decide)
  have noMinus : ∀ c, c.isDigit = true → decide (c = '-') = false := by
    rintro c digit
    rw [decide_eq_false_iff_not]
    rintro rfl
    simp at digit
  have takesExponent := takes_exponent exponentMember stops
  have takesFraction := takes_fraction fractionMember
    (stops_exponent exponentMember (by decide) noPoint)
    (stops_exponent exponentMember (by decide) noDigit)
  have takesWhole := takes_digits wholeMember
    (stops_fraction fractionMember (by decide)
      (stops_exponent exponentMember (by decide) noDigit))
  have noMinusAhead :
      Stops (· = '-') (whole ++ (fraction ++ (exponent ++ rest))) :=
    stops_digits wholeMember noMinus
  have takesAll :
      Grammar.numeral.Takes (sign ++ (whole ++ (fraction ++ exponent))) rest :=
    .andThen (takes_minus signMember (by simpa using noMinusAhead))
      (.andThen (by simpa using takesWhole)
        (takesFraction.andThen takesExponent))
  simpa only [List.append_assoc] using takesAll

/-! Numbers are made of word characters, shown in the Kleene algebra of
languages. -/

private theorem mul_le_kstar {words left right : Language Char}
    (leftLe : left ≤ words∗) (rightLe : right ≤ words∗) :
    left * right ≤ words∗ :=
  (mul_le_mul' leftLe rightLe).trans (kstar_mul_kstar words).le

private theorem optional_le_kstar {words part : Language Char}
    (partLe : part ≤ words∗) : 1 + part ≤ words∗ :=
  add_le one_le_kstar partLe

private theorem digits_le : digits ≤ (Pattern.letter isWordChar)∗ := by
  intro text member
  obtain ⟨_, allDigits⟩ := mem_digits.mp member
  exact Pattern.mem_kstar_letter.mpr fun c inText =>
    isWordChar_of_isDigit (allDigits c inText)

private theorem exactly_le {word : List Char}
    (all : word.all isWordChar = true) :
    ({word} : Language Char) ≤ (Pattern.letter isWordChar)∗ := by
  intro text member
  cases Pattern.mem_exactly.mp member
  exact Pattern.mem_kstar_letter.mpr (List.all_eq_true.mp all)

theorem numbers_le : numbers ≤ (Pattern.letter isWordChar)∗ := by
  have fractionsLe : fractions ≤ (Pattern.letter isWordChar)∗ :=
    mul_le_kstar (exactly_le rfl) digits_le
  have markLe : ({['e']} + {['E']} : Language Char) ≤
      (Pattern.letter isWordChar)∗ :=
    add_le (exactly_le rfl) (exactly_le rfl)
  have signLe : ({['+']} + {['-']} : Language Char) ≤
      (Pattern.letter isWordChar)∗ :=
    add_le (exactly_le rfl) (exactly_le rfl)
  have exponentsLe : exponents ≤ (Pattern.letter isWordChar)∗ :=
    mul_le_kstar (mul_le_kstar markLe (optional_le_kstar signLe)) digits_le
  have minusLe : (1 + {['-']} : Language Char) ≤ (Pattern.letter isWordChar)∗ :=
    optional_le_kstar (exactly_le rfl)
  exact mul_le_kstar (mul_le_kstar (mul_le_kstar minusLe digits_le)
    (optional_le_kstar fractionsLe)) (optional_le_kstar exponentsLe)

private theorem split?_wordEnd_eq_some_iff {text : List Char}
    {parts : List Char × List Char} :
    Grammar.wordEnd.split? text = some parts ↔
      Stops isWordChar text ∧ parts = ([], text) := by
  rw [Grammar.wordEnd, Pattern.split?_notAhead_eq_some_iff]
  refine and_congr_left fun _ =>
    ⟨fun refused => ?_, Pattern.split?_one_of_stops⟩
  cases text with
  | nil => trivial
  | cons c others => simpa [Pattern.split?] using refused

private theorem split?_toWordEnd_eq_some_iff {part : Pattern}
    {text taken rest : List Char} :
    (Pattern.andThen part Grammar.wordEnd).split? text = some (taken, rest) ↔
      part.split? text = some (taken, rest) ∧ Stops isWordChar rest := by
  simp only [Pattern.split?_andThen_eq_some_iff, split?_wordEnd_eq_some_iff,
    Prod.mk.injEq]
  constructor
  · rintro ⟨_, _, _, split, ⟨stops, rfl, rfl⟩, rfl⟩
    simpa using ⟨split, stops⟩
  · rintro ⟨split, stops⟩
    exact ⟨taken, rest, [], split, ⟨stops, rfl, rfl⟩, by simp⟩

section Whole

variable {word rest : List Char} (all : ∀ c ∈ word, isWordChar c = true)
  (stops : Stops isWordChar rest)

include all stops

/-- What reaches up to the end of a word, and is made of word characters, is the
whole word. -/
theorem split?_toWordEnd {part : Pattern} {chosen : Prop} [Decidable chosen]
    (chosen_iff : word ∈ part.language ↔ chosen)
    (wordChars : ∀ text ∈ part.language, ∀ c ∈ text, isWordChar c = true)
    (takes : chosen → part.Takes word rest) :
    (Pattern.andThen part Grammar.wordEnd).split? (word ++ rest) =
      if chosen then some (word, rest) else none := by
  split
  · exact split?_toWordEnd_eq_some_iff.mpr ⟨takes ‹_›, stops⟩
  · rw [Option.eq_none_iff_forall_ne_some]
    rintro ⟨taken, others⟩ split
    obtain ⟨partSplit, otherStops⟩ := split?_toWordEnd_eq_some_iff.mp split
    have member := Pattern.mem_language_of_split? partSplit
    obtain ⟨rfl, rfl⟩ := stops.run_unique all otherStops
      (wordChars taken member) (Pattern.append_of_split? partSplit)
    exact ‹¬chosen› (chosen_iff.mp member)

private theorem split?_keyword :
    Grammar.keyword.split? (word ++ rest) =
      if String.ofList word ∈ keywords then some (word, rest) else none := by
  have wordChars : ∀ text ∈ keywords.map String.toList, ∀ c ∈ text,
      isWordChar c = true := by
    intro text member
    obtain ⟨keyword, keywordMember, rfl⟩ := List.mem_map.mp member
    exact isWordChar_of_mem_keywords keywordMember
  -- The longer keyword comes before the shorter one that it starts with.
  have ordered : (keywords.map String.toList).Pairwise fun earlier later =>
      ¬earlier <+: later := by
    decide
  have chosen_iff : word ∈ keywords.map String.toList ↔
      String.ofList word ∈ keywords := by
    rw [List.mem_map]
    exact ⟨by rintro ⟨keyword, member, rfl⟩; simpa using member,
      fun member => ⟨_, member, by simp⟩⟩
  refine split?_toWordEnd all stops
    (Pattern.mem_language_anyOf.trans chosen_iff)
    (fun text member => wordChars text (Pattern.mem_language_anyOf.mp member))
    fun member => ?_
  refine .anyOf (chosen_iff.mpr member) (ordered.imp_of_mem ?_)
  rintro earlier _ earlierMember _ notPrefix rfl isPrefix
  exact notPrefix
    (stops.prefix_of_prefix_append (wordChars earlier earlierMember) isPrefix)

end Whole

/-- A word is a number if the rule for numbers takes all of it. -/
theorem mem_numbers_iff {word : List Char} :
    word ∈ numbers ↔ Grammar.numeral.split? word = some (word, []) := by
  constructor
  · intro member
    have takes : Grammar.numeral.Takes word [] := takes_numeral member trivial
    simpa [Pattern.Takes] using takes
  · intro split
    rw [← language_numeral]
    exact Pattern.mem_language_of_split? split

instance (word : List Char) : Decidable (word ∈ numbers) :=
  decidable_of_iff _ mem_numbers_iff.symm

section Rules

variable {word rest : List Char} (all : ∀ c ∈ word, isWordChar c = true)
  (stops : Stops isWordChar rest)

include all stops

theorem split?_number :
    Grammar.number.split? (word ++ rest) =
      if word ∈ numbers then some (word, rest) else none := by
  have wordChars : ∀ text ∈ Grammar.numeral.language, ∀ c ∈ text,
      isWordChar c = true := by
    intro text member
    rw [language_numeral] at member
    exact Pattern.mem_kstar_letter.mp (numbers_le member)
  exact split?_toWordEnd all stops (by rw [language_numeral]) wordChars
    fun member => takes_numeral member stops

end Rules

def token (word : List Char) : Token :=
  if String.ofList word ∈ keywords then ⟨.keyword, String.ofList word⟩
  else if word ∈ numbers then ⟨.literal, String.ofList word⟩
  else ⟨.other, String.ofList word⟩

end Word

namespace Token

theorem next?_eq (text : List Char) :
    next? text = ((Rule.keyword.read? text).or ((Rule.string.read? text).or
      ((Rule.number.read? text).or (Rule.other.read? text)))) := by
  simp only [next?, List.findSome?]
  cases Rule.keyword.read? text <;> cases Rule.string.read? text <;>
    cases Rule.number.read? text <;> cases Rule.other.read? text <;> rfl

/-- Where no word starts, only the rule for strings can apply. -/
theorem next?_of_stops {text : List Char} (stops : Stops isWordChar text) :
    next? text = Rule.string.read? text := by
  have keywordNone : Grammar.keyword.split? text = none := by
    have onNothing := Word.split?_keyword (List.forall_mem_nil _) stops
    simpa [keywords] using onNothing
  have numberNone : Grammar.number.split? text = none := by
    have notNumber : [] ∉ Word.numbers := by decide
    have onNothing := Word.split?_number (List.forall_mem_nil _) stops
    simpa [notNumber] using onNothing
  have otherNone : Grammar.other.split? text = none :=
    Pattern.split?_andThen_of_none _ (Pattern.split?_one_of_stops stops)
  simp [next?_eq, Rule.read?, Rule.pattern, keywordNone, numberNone, otherNone]

theorem next?_word {word rest : List Char} (nonempty : word ≠ [])
    (all : ∀ c ∈ word, isWordChar c = true) (stops : Stops isWordChar rest) :
    next? (word ++ rest) = some (Word.token word, rest) := by
  have noQuote : Stops (· = '"') (word ++ rest) := by
    cases word with
    | nil => exact absurd rfl nonempty
    | cons c others =>
        simpa using (isWordChar_iff.mp (all c List.mem_cons_self)).2.2.2.2.1
  have stringNone : Grammar.string.split? (word ++ rest) = none :=
    Pattern.split?_andThen_of_none _ (Pattern.split?_exactly_of_stops noQuote)
  have otherSome : Grammar.other.split? (word ++ rest) = some (word, rest) :=
    Pattern.Takes.some1 nonempty all stops
  rw [next?_eq]
  simp only [Rule.read?, Rule.pattern, Word.split?_keyword all stops,
    stringNone, Word.split?_number all stops, otherSome, Word.token]
  split
  · rfl
  · split <;> rfl

private theorem quote_stops {text : List Char} :
    Stops isWordChar ('"' :: text) := rfl

theorem next?_string {interior rest : List Char} (noQuote : '"' ∉ interior) :
    next? ('"' :: (interior ++ '"' :: rest)) =
      some (⟨.literal, String.ofList interior⟩, rest) := by
  have takes : Grammar.string.Takes (['"'] ++ (interior ++ ['"'])) rest :=
    .andThen (.exactly _ _)
      (.andThen (.many (forall_ne_of_not_mem noQuote) (by simp)) (.exactly _ _))
  have split : Grammar.string.split? ('"' :: (interior ++ '"' :: rest)) =
      some ('"' :: (interior ++ ['"']), rest) := by
    simpa [Pattern.Takes] using takes
  rw [next?_of_stops quote_stops, Rule.read?, Rule.pattern, split]
  simp [Rule.token]

/-- No rule applies at the quote of a string that is never closed. -/
theorem next?_unclosed {body : List Char}
    (noQuote : '"' ∉ body) : next? ('"' :: body) = none := by
  rw [next?_of_stops quote_stops, Rule.read?, Option.map_eq_none_iff,
    Option.eq_none_iff_forall_ne_some]
  rintro ⟨taken, rest⟩ split
  obtain ⟨_, _, _, opening, closing, _⟩ :=
    Pattern.split?_andThen_eq_some_iff.mp split
  obtain ⟨rfl, same⟩ := Pattern.split?_exactly_eq_some_iff.mp opening
  obtain ⟨_, _, _, inside, closed, _⟩ :=
    Pattern.split?_andThen_eq_some_iff.mp closing
  obtain ⟨_, rfl⟩ := Pattern.split?_exactly_eq_some_iff.mp closed
  have parts := Pattern.append_of_split? inside
  cases same
  apply noQuote
  rw [← parts]
  simp

theorem next?_nil : next? [] = none :=
  next?_of_stops trivial

end Token

end FuzzyRules
