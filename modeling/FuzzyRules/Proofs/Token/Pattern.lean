import FuzzyRules.Token.Pattern
import Mathlib

open Computability

namespace FuzzyRules

/-! The language of a pattern forgets the order of choices, the greed of
repetitions and what lookahead refuses. -/

def Stops (accepts : Char → Bool) : List Char → Prop
  | [] => True
  | c :: _ => accepts c = false

instance (accepts : Char → Bool) (text : List Char) :
    Decidable (Stops accepts text) :=
  match text with
  | [] => isTrue trivial
  | c :: _ => inferInstanceAs (Decidable (accepts c = false))

namespace Stops

variable {accepts : Char → Bool} {word rest : List Char}

@[simp] theorem nil : Stops accepts [] := trivial

@[simp] theorem cons_iff {c : Char} :
    Stops accepts (c :: rest) ↔ accepts c = false := Iff.rfl

theorem mono {narrow wide : Char → Bool}
    (narrower : ∀ c, narrow c = true → wide c = true)
    (stops : Stops wide rest) :
    Stops narrow rest := by
  cases rest with
  | nil => trivial
  | cons c others =>
      rw [cons_iff, Bool.eq_false_iff] at stops ⊢
      exact fun accepted => stops (narrower c accepted)

theorem append (first : Stops accepts word) (second : Stops accepts rest) :
    Stops accepts (word ++ rest) := by
  cases word with
  | nil => exact second
  | cons c others => exact first

theorem dropWhile (accepts : Char → Bool) (text : List Char) :
    Stops accepts (text.dropWhile accepts) := by
  induction text with
  | nil => trivial
  | cons c others ih =>
      rw [List.dropWhile_cons]
      split
      · exact ih
      · simpa using ‹¬accepts c = true›

theorem takeWhile_eq_nil (stops : Stops accepts rest) :
    rest.takeWhile accepts = [] := by
  cases rest with
  | nil => rfl
  | cons c others => rw [List.takeWhile_cons, cons_iff.mp stops]; rfl

theorem dropWhile_eq_self (stops : Stops accepts rest) :
    rest.dropWhile accepts = rest := by
  cases rest with
  | nil => rfl
  | cons c others => rw [List.dropWhile_cons, cons_iff.mp stops]; rfl

theorem takeWhile_append (stops : Stops accepts rest)
    (all : ∀ c ∈ word, accepts c = true) :
    (word ++ rest).takeWhile accepts = word := by
  rw [List.takeWhile_append_of_pos all, stops.takeWhile_eq_nil, List.append_nil]

theorem dropWhile_append (stops : Stops accepts rest)
    (all : ∀ c ∈ word, accepts c = true) :
    (word ++ rest).dropWhile accepts = rest := by
  rw [List.dropWhile_append_of_pos all, stops.dropWhile_eq_self]

/-- A text starts with one maximal run of a class only. -/
theorem run_unique {otherWord otherRest : List Char}
    (stops : Stops accepts rest) (all : ∀ c ∈ word, accepts c = true)
    (otherStops : Stops accepts otherRest)
    (otherAll : ∀ c ∈ otherWord, accepts c = true)
    (same : otherWord ++ otherRest = word ++ rest) :
    otherWord = word ∧ otherRest = rest := by
  constructor
  · rw [← otherStops.takeWhile_append otherAll, same,
      stops.takeWhile_append all]
  · rw [← otherStops.dropWhile_append otherAll, same,
      stops.dropWhile_append all]

theorem prefix_of_prefix_append {start : List Char} (stops : Stops accepts rest)
    (all : ∀ c ∈ start, accepts c = true) (isPrefix : start <+: word ++ rest) :
    start <+: word := by
  obtain ⟨others, same⟩ := isPrefix
  rcases List.append_eq_append_iff.mp same with
    ⟨more, rfl, _⟩ | ⟨more, rfl, rfl⟩
  · exact List.prefix_append start more
  · cases more with
    | nil => simp
    | cons c more =>
        have accepted := all c (by simp)
        simp [cons_iff.mp stops] at accepted

end Stops

theorem forall_ne_of_not_mem {c : Char} {text : List Char} (absent : c ∉ text) :
    ∀ d ∈ text, decide (d ≠ c) = true := by
  intro d member
  rw [decide_eq_true_iff]
  rintro rfl
  exact absent member

namespace Pattern

def letter (accepts : Char → Bool) : Language Char :=
  {text | ∃ c, accepts c = true ∧ text = [c]}

def language : Pattern → Language Char
  | one accepts => letter accepts
  | exactly word => {word}
  | andThen first second => first.language * second.language
  | orElse first second => first.language + second.language
  | optional part => 1 + part.language
  | many accepts => (letter accepts)∗
  | notAhead _ => 1

private theorem mem_letter {accepts : Char → Bool} {text : List Char} :
    text ∈ letter accepts ↔ ∃ c, accepts c = true ∧ text = [c] := Iff.rfl

theorem mem_exactly {word text : List Char} :
    text ∈ ({word} : Language Char) ↔ text = word := Iff.rfl

theorem mem_kstar_letter {accepts : Char → Bool} {text : List Char} :
    text ∈ (letter accepts)∗ ↔ ∀ c ∈ text, accepts c = true := by
  constructor
  · rintro ⟨words, rfl, letters⟩ c member
    obtain ⟨word, wordMember, inWord⟩ := List.mem_flatten.mp member
    obtain ⟨other, accepted, rfl⟩ := letters word wordMember
    rw [List.mem_singleton.mp inWord]
    exact accepted
  · intro all
    refine ⟨text.map fun c => [c], ?_, ?_⟩
    · induction text with
      | nil => rfl
      | cons c others ih =>
          simpa using ih fun d member => all d (List.mem_cons_of_mem c member)
    · intro word member
      obtain ⟨c, inText, rfl⟩ := List.mem_map.mp member
      exact ⟨c, all c inText, rfl⟩

theorem mem_language_of_split? {pattern : Pattern} {text taken rest : List Char}
    (split : pattern.split? text = some (taken, rest)) :
    taken ∈ pattern.language := by
  induction pattern generalizing text taken rest with
  | one accepts =>
      obtain ⟨c, accepted, rfl, _⟩ := split?_one_eq_some_iff.mp split
      exact ⟨c, accepted, rfl⟩
  | exactly word => exact (split?_exactly_eq_some_iff.mp split).1
  | andThen first second firstIh secondIh =>
      obtain ⟨firstTaken, middle, secondTaken, firstSplit, secondSplit, rfl⟩ :=
        split?_andThen_eq_some_iff.mp split
      exact Language.append_mem_mul (firstIh firstSplit) (secondIh secondSplit)
  | orElse first second firstIh secondIh =>
      rcases split?_orElse_eq_some_iff.mp split with
        firstSplit | ⟨_, secondSplit⟩
      · exact Or.inl (firstIh firstSplit)
      · exact Or.inr (secondIh secondSplit)
  | optional part ih =>
      rcases split?_optional_eq_some_iff.mp split with partSplit | ⟨_, nothing⟩
      · exact Or.inr (ih partSplit)
      · cases nothing
        exact Or.inl Language.nil_mem_one
  | many accepts =>
      obtain ⟨rfl, _⟩ := split?_many_eq_some_iff.mp split
      exact mem_kstar_letter.mpr fun c member => List.mem_takeWhile_imp member
  | notAhead part _ =>
      cases (split?_notAhead_eq_some_iff.mp split).2
      exact Language.nil_mem_one

theorem split?_one_of_stops {accepts : Char → Bool} {rest : List Char}
    (stops : Stops accepts rest) : (one accepts).split? rest = none := by
  cases rest with
  | nil => rfl
  | cons c others => simpa [split?] using stops

theorem split?_exactly_of_stops {c : Char} {word rest : List Char}
    (stops : Stops (· = c) rest) :
    (exactly (c :: word)).split? rest = none := by
  cases rest with
  | nil => rfl
  | cons d others =>
      have different : d ≠ c := by simpa using stops
      simp [split?, List.isPrefixOf, different.symm]

theorem split?_andThen_of_none {first : Pattern} (second : Pattern)
    {text : List Char} (none : first.split? text = none) :
    (andThen first second).split? text = Option.none := by
  simp [split?, none]

theorem split?_orElse_of_none {first second : Pattern} {text : List Char}
    (firstNone : first.split? text = none)
    (secondNone : second.split? text = none) :
    (orElse first second).split? text = none := by
  simp [split?, firstNone, secondNone]

/-- The pattern takes `word` where `rest` follows it. -/
def Takes (pattern : Pattern) (word rest : List Char) : Prop :=
  pattern.split? (word ++ rest) = some (word, rest)

namespace Takes

variable {accepts : Char → Bool} {first second part : Pattern}
  {word more rest : List Char}

theorem one {c : Char} (accepted : accepts c = true) :
    (one accepts).Takes [c] rest :=
  split?_one_eq_some_iff.mpr ⟨c, accepted, rfl, rfl⟩

theorem exactly (word rest : List Char) : (exactly word).Takes word rest :=
  split?_exactly_eq_some_iff.mpr ⟨rfl, rfl⟩

theorem andThen (firstTakes : first.Takes word (more ++ rest))
    (secondTakes : second.Takes more rest) :
    (andThen first second).Takes (word ++ more) rest := by
  rw [Takes, List.append_assoc]
  exact split?_andThen_eq_some_iff.mpr ⟨word, more ++ rest, more, firstTakes,
    secondTakes, rfl⟩

theorem orElse_left (takes : first.Takes word rest) :
    (orElse first second).Takes word rest :=
  split?_orElse_eq_some_iff.mpr (Or.inl takes)

theorem orElse_right (none : first.split? (word ++ rest) = none)
    (takes : second.Takes word rest) : (orElse first second).Takes word rest :=
  split?_orElse_eq_some_iff.mpr (Or.inr ⟨none, takes⟩)

theorem optional (takes : part.Takes word rest) :
    (optional part).Takes word rest :=
  split?_optional_eq_some_iff.mpr (Or.inl takes)

theorem optional_nil (none : part.split? rest = none) :
    (Pattern.optional part).Takes [] rest :=
  split?_optional_eq_some_iff.mpr (Or.inr ⟨none, rfl⟩)

theorem many (all : ∀ c ∈ word, accepts c = true) (stops : Stops accepts rest) :
    (many accepts).Takes word rest :=
  split?_many_eq_some_iff.mpr ⟨(stops.takeWhile_append all).symm,
    (stops.dropWhile_append all).symm⟩

theorem some1 (nonempty : word ≠ []) (all : ∀ c ∈ word, accepts c = true)
    (stops : Stops accepts rest) : (some1 accepts).Takes word rest := by
  cases word with
  | nil => exact absurd rfl nonempty
  | cons c others =>
      have allOthers : ∀ d ∈ others, accepts d = true :=
        fun d member => all d (List.mem_cons_of_mem c member)
      exact andThen (one (all c List.mem_cons_self)) (many allOthers stops)

end Takes

/-- Of several texts, one is taken if those that come before it are not
there. -/
theorem Takes.anyOf {words : List (List Char)} {word rest : List Char}
    (member : word ∈ words)
    (ordered : words.Pairwise fun earlier later => later = word →
      ¬earlier <+: word ++ rest) : (anyOf words).Takes word rest := by
  induction words with
  | nil => cases member
  | cons head others ih =>
      by_cases same : head = word
      · subst same
        exact .orElse_left (.exactly head rest)
      · have inOthers := (List.mem_cons.mp member).resolve_left (Ne.symm same)
        obtain ⟨beforeOthers, orderedOthers⟩ := List.pairwise_cons.mp ordered
        have refused : (Pattern.exactly head).split? (word ++ rest) = none := by
          simpa [split?] using beforeOthers word inOthers rfl
        exact .orElse_right refused (ih inOthers orderedOthers)

theorem mem_language_anyOf {words : List (List Char)} {text : List Char} :
    text ∈ (anyOf words).language ↔ text ∈ words := by
  induction words with
  | nil => simp [anyOf, language, mem_letter]
  | cons head others ih =>
      rw [anyOf, language, Language.mem_add, ih, List.mem_cons]; rfl

end Pattern

end FuzzyRules
