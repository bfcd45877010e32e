namespace FuzzyRules

/-- Choices are tried in order and repetitions take all they can; neither is
taken back when a later part fails. -/
inductive Pattern where
  | one (accepts : Char → Bool)
  | exactly (word : List Char)
  | andThen (first second : Pattern)
  | orElse (first second : Pattern)
  | optional (part : Pattern)
  /-- As many characters of a class as there are. -/
  | many (accepts : Char → Bool)
  /-- Takes nothing, and only where `part` would fail. -/
  | notAhead (part : Pattern)

namespace Pattern

/-- What a pattern takes from the front of a text, and the rest. -/
def split? : Pattern → List Char → Option (List Char × List Char)
  | one _, [] => none
  | one accepts, c :: rest => if accepts c then some ([c], rest) else none
  | exactly word, text =>
      if word.isPrefixOf text then some (word, text.drop word.length) else none
  | andThen first second, text =>
      match first.split? text with
      | none => none
      | some (taken, rest) =>
          (second.split? rest).map fun (more, rest) => (taken ++ more, rest)
  | orElse first second, text =>
      match first.split? text with
      | none => second.split? text
      | some parts => some parts
  | optional part, text => some ((part.split? text).getD ([], text))
  | many accepts, text => some (text.takeWhile accepts, text.dropWhile accepts)
  | notAhead part, text =>
      if (part.split? text).isSome then none else some ([], text)

/-- Several characters of a class, but not none. -/
def some1 (accepts : Char → Bool) : Pattern :=
  .andThen (.one accepts) (.many accepts)

/-- The first of several texts that matches. -/
def anyOf : List (List Char) → Pattern
  | [] => .one fun _ => false
  | word :: words => .orElse (.exactly word) (anyOf words)

/-- Whether a pattern takes at least one character wherever it does not fail. -/
def consumes : Pattern → Bool
  | one _ => true
  | exactly word => !word.isEmpty
  | andThen first second => first.consumes || second.consumes
  | orElse first second => first.consumes && second.consumes
  | optional _ | many _ | notAhead _ => false

section Inversion

variable {accepts : Char → Bool} {first second part : Pattern}
  {text taken rest : List Char}

theorem split?_one_eq_some_iff :
    (one accepts).split? text = some (taken, rest) ↔
      ∃ c, accepts c = true ∧ taken = [c] ∧ text = c :: rest := by
  cases text with
  | nil => simp [split?]
  | cons c others =>
      simp only [split?, Option.ite_none_right_eq_some, Option.some.injEq,
        Prod.mk.injEq, List.cons.injEq]
      constructor
      · rintro ⟨accepted, rfl, rfl⟩
        exact ⟨c, accepted, rfl, rfl, rfl⟩
      · rintro ⟨_, accepted, rfl, rfl, rfl⟩
        exact ⟨accepted, rfl, rfl⟩

theorem split?_exactly_eq_some_iff {word : List Char} :
    (exactly word).split? text = some (taken, rest) ↔
      taken = word ∧ text = word ++ rest := by
  simp only [split?, List.isPrefixOf_iff_prefix, Option.ite_none_right_eq_some,
    Option.some.injEq, Prod.mk.injEq]
  constructor
  · rintro ⟨⟨others, rfl⟩, rfl, rfl⟩
    simp
  · rintro ⟨rfl, rfl⟩
    simp

theorem split?_andThen_eq_some_iff :
    (andThen first second).split? text = some (taken, rest) ↔
      ∃ firstTaken middle secondTaken,
        first.split? text = some (firstTaken, middle) ∧
        second.split? middle = some (secondTaken, rest) ∧
          taken = firstTaken ++ secondTaken := by
  simp only [split?]
  cases firstSplit : first.split? text with
  | none => simp
  | some parts =>
      obtain ⟨firstTaken, middle⟩ := parts
      simp only [Option.map_eq_some_iff, Prod.mk.injEq, Option.some.injEq]
      constructor
      · rintro ⟨⟨secondTaken, others⟩, secondSplit, rfl, rfl⟩
        exact ⟨firstTaken, middle, secondTaken, ⟨rfl, rfl⟩, secondSplit, rfl⟩
      · rintro ⟨_, _, secondTaken, ⟨rfl, rfl⟩, secondSplit, rfl⟩
        exact ⟨(secondTaken, rest), secondSplit, rfl, rfl⟩

theorem split?_orElse_eq_some_iff {parts : List Char × List Char} :
    (orElse first second).split? text = some parts ↔
      first.split? text = some parts ∨
        (first.split? text = none ∧ second.split? text = some parts) := by
  simp only [split?]
  cases first.split? text <;> simp

theorem split?_optional_eq_some_iff {parts : List Char × List Char} :
    (optional part).split? text = some parts ↔
      part.split? text = some parts ∨
        (part.split? text = none ∧ parts = ([], text)) := by
  simp only [split?, Option.some.injEq]
  cases part.split? text <;> simp [eq_comm]

theorem split?_many_eq_some_iff :
    (many accepts).split? text = some (taken, rest) ↔
      taken = text.takeWhile accepts ∧ rest = text.dropWhile accepts := by
  simp [split?, eq_comm]

theorem split?_notAhead_eq_some_iff {parts : List Char × List Char} :
    (notAhead part).split? text = some parts ↔
      part.split? text = none ∧ parts = ([], text) := by
  simp only [split?]
  cases part.split? text <;> simp [eq_comm]

end Inversion

theorem append_of_split? {pattern : Pattern} {text taken rest : List Char}
    (split : pattern.split? text = some (taken, rest)) :
    taken ++ rest = text := by
  induction pattern generalizing text taken rest with
  | one accepts =>
      obtain ⟨c, _, rfl, rfl⟩ := split?_one_eq_some_iff.mp split
      rfl
  | exactly word =>
      obtain ⟨rfl, rfl⟩ := split?_exactly_eq_some_iff.mp split
      rfl
  | andThen first second firstIh secondIh =>
      obtain ⟨firstTaken, middle, secondTaken, firstSplit, secondSplit, rfl⟩ :=
        split?_andThen_eq_some_iff.mp split
      rw [List.append_assoc, secondIh secondSplit, firstIh firstSplit]
  | orElse first second firstIh secondIh =>
      cases split?_orElse_eq_some_iff.mp split with
      | inl firstSplit => exact firstIh firstSplit
      | inr secondSplit => exact secondIh secondSplit.2
  | optional part ih =>
      cases split?_optional_eq_some_iff.mp split with
      | inl partSplit => exact ih partSplit
      | inr nothing =>
          cases nothing.2
          rfl
  | many accepts =>
      obtain ⟨rfl, rfl⟩ := split?_many_eq_some_iff.mp split
      exact List.takeWhile_append_dropWhile
  | notAhead part _ =>
      cases (split?_notAhead_eq_some_iff.mp split).2
      rfl

private theorem taken_ne_nil_of_split? {pattern : Pattern}
    (consuming : pattern.consumes = true) {text taken rest : List Char}
    (split : pattern.split? text = some (taken, rest)) : taken ≠ [] := by
  induction pattern generalizing text taken rest with
  | one accepts =>
      obtain ⟨c, _, rfl, _⟩ := split?_one_eq_some_iff.mp split
      simp
  | exactly word =>
      obtain ⟨rfl, _⟩ := split?_exactly_eq_some_iff.mp split
      simpa [consumes] using consuming
  | andThen first second firstIh secondIh =>
      obtain ⟨firstTaken, middle, secondTaken, firstSplit, secondSplit, rfl⟩ :=
        split?_andThen_eq_some_iff.mp split
      simp only [consumes, Bool.or_eq_true] at consuming
      cases consuming with
      | inl consuming => simp [firstIh consuming firstSplit]
      | inr consuming => simp [secondIh consuming secondSplit]
  | orElse first second firstIh secondIh =>
      simp only [consumes, Bool.and_eq_true] at consuming
      cases split?_orElse_eq_some_iff.mp split with
      | inl firstSplit => exact firstIh consuming.1 firstSplit
      | inr secondSplit => exact secondIh consuming.2 secondSplit.2
  | optional part _ => cases consuming
  | many accepts => cases consuming
  | notAhead part _ => cases consuming

/-- A pattern that consumes leaves less than it was given. -/
theorem length_rest_lt_of_split? {pattern : Pattern}
    (consuming : pattern.consumes = true) {text taken rest : List Char}
    (split : pattern.split? text = some (taken, rest)) :
    rest.length < text.length := by
  have nonempty :=
    List.length_pos_iff.mpr (taken_ne_nil_of_split? consuming split)
  rw [← append_of_split? split, List.length_append]
  omega

end Pattern

end FuzzyRules
